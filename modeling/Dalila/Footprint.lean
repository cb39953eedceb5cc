import Dalila.Evidence
import Dalila.Lib.Bracket
import Dalila.Sends
import Dalila.Storm
import Dalila.Vouching
import Dalila.Watch

/-!
# What a node keeps

The file bounds the table, the queue, the detector's order and the probes a node waits for
(`kept_is_bounded`).
- `Unregistered`: a program forgets every probe it registers, however it ends.
- `Owing`: who of the running tasks waits for which number
- `shuffling`: the detector's order holds ids of other nodes of the cluster, each of them once.
-/

namespace Dalila

open Program

variable {h h' : Trace} {q : NodeId} {p : Process} {slot slot' : Slot} {kind : Kind}
  {node : LocalNode} {owed : Slot → Option UInt32} {N : ℕ}

/-! ## Probes are forgotten -/

/-- A probe is opened by `register` and closed by `forget`. -/
def probeBrackets : Brackets Op UInt32 where
  opens
    | .register seq _ => some seq
    | _ => none
  closes
    | .forget seq => some seq
    | _ => none

abbrev Unregistered {α : Type} (prog : Prog α) : Prop :=
  AtWaits (fun o => probeBrackets.opens o ≠ none) (fun _ => False) prog

/-- The other tasks register nothing. -/
lemma unregistered_start (hkind : ¬ kind.probes) : Unregistered (kind.start node) := by
  refine AtWaits.of_le (fun o ho => ?_) (not_registers_start node hkind)
  cases o with
  | register => trivial
  | _ => exact absurd rfl ho

/-- Giving up on what is open. -/
lemma balanced_forget {α : Type} (seq : UInt32) (a : α) :
    Balanced probeBrackets (some seq) (do Op.call (.forget seq); pure a) := by
  refine .call_bind (fun _ => rfl) fun _ => ?_
  have hafter : probeBrackets.after (some seq) (.forget seq) = none := if_pos rfl
  rw [hafter]
  exact .pure a

/-- A ping forgets its number, answered or not. -/
lemma balanced_ping (target : NodeId) (addr : SocketAddr) (seq : UInt32) :
    Balanced probeBrackets none (ping node target addr seq) := by
  refine .call_bind (fun howed => absurd rfl howed) fun channel => ?_
  refine .call_bind_plain rfl rfl fun current => .call_bind_plain rfl rfl fun gossip =>
    .call_bind_plain rfl rfl fun ok => ?_
  cases ok with
  | true =>
    exact .call_bind_plain rfl rfl fun _ => .call_bind_plain rfl rfl fun acked =>
      balanced_forget seq acked
  | false => exact balanced_forget seq false

/-- Asking relays forgets its number too, also where there are none. -/
lemma balanced_pingReq (target : NodeId) (relays : List Member) (seq : UInt32) :
    Balanced probeBrackets none (pingReq node target relays seq) := by
  refine .call_bind (fun howed => absurd rfl howed) fun channel => ?_
  have hplain : ∀ (relays : List Member) (sent : ℕ),
      AtWaits (fun o => probeBrackets.opens o ≠ none ∨ probeBrackets.closes o ≠ none)
        (fun _ => False) (askRelays node target seq relays sent) := by
    intro relays
    induction relays with
    | nil => exact fun sent => trivial
    | cons relay relays ih =>
      refine fun sent => AtWaits.call_bind (by simp [probeBrackets]) fun _ =>
        AtWaits.call_bind (by simp [probeBrackets]) fun _ =>
          AtWaits.call_bind (by simp [probeBrackets]) fun ok => ih _
  refine .bind_plain (hplain relays 0) fun sent => ?_
  split_ifs
  · exact balanced_forget seq false
  · exact .call_bind_plain rfl rfl fun _ => .call_bind_plain rfl rfl fun acked =>
      balanced_forget seq acked

/-- Every kind of task forgets what it has registered. -/
lemma balanced_start (node : LocalNode) (kind : Kind) :
    Balanced probeBrackets none (kind.start node) := by
  by_cases hkind : kind.probes
  · cases kind with
    | probing target =>
      refine .call_bind_plain rfl rfl fun seq => (balanced_ping _ _ _).bind fun acked => ?_
      cases acked with
      | true => exact .pure true
      | false =>
        refine .call_bind_plain rfl rfl fun relays => ?_
        show Balanced _ _ (if relays.isEmpty then _ else _)
        split_ifs
        · exact .pure false
        · exact .call_bind_plain rfl rfl fun seq => balanced_pingReq _ _ _
    | relay relay =>
      refine .call_bind_plain rfl rfl fun member => ?_
      cases member with
      | none => exact .pure ()
      | some member =>
        refine .call_bind_plain rfl rfl fun seq => (balanced_ping _ _ _).bind fun acked => ?_
        cases acked with
        | true =>
          exact .call_bind_plain rfl rfl fun _ => .call_bind_plain rfl rfl fun _ =>
            .call_bind_plain rfl rfl fun _ => .pure ()
        | false => exact .pure ()
    | _ => exact hkind.elim
  · exact (unregistered_start hkind).balanced

/-! ## Who waits for what -/

/-- `owed` says which task has which probe open. -/
structure Owing (p : Process) (owed : Slot → Option UInt32) : Prop where
  balanced : ∀ slot task, p.tasks slot = some task → Balanced probeBrackets (owed slot) task.prog
  plain : ∀ slot task, p.tasks slot = some task → ¬ task.kind.probes →
    Unregistered task.prog ∧ owed slot = none
  owner : p.aborted = false → ∀ seq, p.shared.pending.waiting seq ≠ none →
    ∃ slot, owed slot = some seq ∧ p.tasks slot ≠ none

namespace Owing

/-- Nothing is open in a slot where nothing runs. -/
lemma idle (howing : Owing p owed) (hidle : p.tasks slot = none) :
    Owing p (Function.update owed slot none) where
  balanced slot' task htask := by
    have hne : slot' ≠ slot := by
      rintro rfl
      exact absurd htask (by simp [hidle])
    rw [Function.update_of_ne hne]
    exact howing.balanced slot' task htask
  plain slot' task htask hkind := by
    have hne : slot' ≠ slot := by
      rintro rfl
      exact absurd htask (by simp [hidle])
    rw [Function.update_of_ne hne]
    exact howing.plain slot' task htask hkind
  owner haborted seq hseq := by
    obtain ⟨slot', howed, htask⟩ := howing.owner haborted seq hseq
    have hne : slot' ≠ slot := by
      rintro rfl
      exact htask hidle
    exact ⟨slot', by rwa [Function.update_of_ne hne], htask⟩

/-- A task that has nothing open can be replaced. -/
lemma set (howing : Owing p owed) (hslot : owed slot = none ∨ p.aborted = true)
    (task : Option Task) (hbalanced : ∀ t ∈ task, Balanced probeBrackets (owed slot) t.prog)
    (hplain : ∀ t ∈ task, ¬ t.kind.probes → Unregistered t.prog ∧ owed slot = none) :
    Owing (p.set slot task) owed where
  balanced slot' t ht := by
    rcases Process.tasks_set_some ht with ⟨rfl, rfl⟩ | ⟨_, ht⟩
    · exact hbalanced t rfl
    · exact howing.balanced slot' t ht
  plain slot' t ht hkind := by
    rcases Process.tasks_set_some ht with ⟨rfl, rfl⟩ | ⟨_, ht⟩
    · exact hplain t rfl hkind
    · exact howing.plain slot' t ht hkind
  owner haborted seq hseq := by
    rcases hslot with hslot | habort
    · obtain ⟨slot', howed, htask⟩ := howing.owner haborted seq hseq
      have hne : slot' ≠ slot := by
        rintro rfl
        exact absurd (hslot.symm.trans howed) (by simp)
      exact ⟨slot', howed, by rwa [Process.tasks_set, if_neg hne]⟩
    · exact absurd (habort.symm.trans haborted) (by simp)

/-- A task that owes nothing may be over. -/
lemma drop (howing : Owing p owed) (hslot : owed slot = none ∨ p.aborted = true) :
    Owing (p.set slot none) owed :=
  howing.set hslot none (by simp) (by simp)

/-- Another task may start where none owes anything. -/
lemma start (howing : Owing p owed) (hslot : owed slot = none) (node : LocalNode) (kind : Kind) :
    Owing (p.set slot (some (Task.start node kind))) owed := by
  refine howing.set (.inl hslot) _ ?_ ?_
  · rintro t ⟨⟩
    rw [hslot]
    exact balanced_start node kind
  · rintro t ⟨⟩ hkind
    exact ⟨unregistered_start hkind, hslot⟩

/-- What else changes in a process does not matter. -/
lemma of_eq {p' : Process} (howing : Owing p owed) (htasks : p'.tasks = p.tasks)
    (hshared : p'.shared = p.shared) (haborted : p'.aborted = false → p.aborted = false) :
    Owing p' owed where
  balanced slot task htask := howing.balanced slot task (htasks ▸ htask)
  plain slot task htask := howing.plain slot task (htasks ▸ htask)
  owner hloops seq hseq := by
    rw [hshared] at hseq
    rw [htasks]
    exact howing.owner (haborted hloops) seq hseq

end Owing

/-- What an operation leaves waiting it has just registered, or it was waiting and has not been
forgotten. -/
lemma Op.Run.waiting {now : Instant} {o : Op} {r : o.Res} {shared shared' : Shared}
    {net net' : List Packet} {seq : UInt32} (hop : o.Run node now ⟨shared, net⟩ r ⟨shared', net'⟩)
    (hseq : shared'.pending.waiting seq ≠ none) :
    probeBrackets.opens o = some seq ∨
      shared.pending.waiting seq ≠ none ∧ probeBrackets.closes o ≠ some seq := by
  cases o with
  | register seq₀ subject =>
    obtain ⟨_, hworld⟩ := hop
    obtain ⟨rfl, rfl⟩ := World.mk.inj hworld
    by_cases hseq₀ : seq = seq₀
    · exact .inl (congrArg some hseq₀.symm)
    · refine .inr ⟨?_, by simp [probeBrackets]⟩
      rwa [← Function.update_of_ne hseq₀ (some (subject, shared.pending.opened))
        shared.pending.waiting]
  | forget seq₀ =>
    obtain ⟨rfl, rfl⟩ := World.mk.inj hop
    by_cases hseq₀ : seq = seq₀
    · rw [hseq₀] at hseq
      exact absurd (Function.update_self ..) hseq
    · refine .inr ⟨?_, fun hcloses => hseq₀ (Option.some.inj hcloses).symm⟩
      rwa [← Function.update_of_ne hseq₀ none shared.pending.waiting]
  | resolve seq₀ subject =>
    obtain ⟨rfl, rfl⟩ := World.mk.inj hop
    refine .inr ⟨?_, by simp [probeBrackets]⟩
    intro hnone
    refine hseq ?_
    show (shared.pending.resolve seq₀ subject).waiting seq = none
    unfold PendingAcks.resolve
    split
    · split_ifs
      · show Function.update shared.pending.waiting seq₀ none seq = none
        by_cases hseq₀ : seq = seq₀
        · rw [hseq₀, Function.update_self]
        · rw [Function.update_of_ne hseq₀, hnone]
      · exact hnone
    · exact hnone
  -- the others leave the waiting alone
  | leave | remove | push =>
    obtain ⟨rfl, rfl⟩ := World.mk.inj hop
    exact .inr ⟨hseq, by simp [probeBrackets]⟩
  | sendUdp | writeRequest | writeResponse =>
    cases r with
    | false | true =>
      obtain ⟨rfl, rfl⟩ := World.mk.inj hop
      exact .inr ⟨hseq, by simp [probeBrackets]⟩
  | connect | readFrame =>
    cases r with
    | none =>
      obtain ⟨rfl, rfl⟩ := World.mk.inj hop
      exact .inr ⟨hseq, by simp [probeBrackets]⟩
    | some result =>
      obtain ⟨_, hworld⟩ := hop
      obtain ⟨rfl, rfl⟩ := World.mk.inj hworld
      exact .inr ⟨hseq, by simp [probeBrackets]⟩
  | _ =>
    obtain ⟨_, hworld⟩ := hop
    obtain ⟨rfl, rfl⟩ := World.mk.inj hworld
    exact .inr ⟨hseq, by simp [probeBrackets]⟩

/-- One more operation. -/
lemma Owing.op {now : Instant} {o : Op} {next : o.Res → Prog kind.Out} {r : o.Res}
    {shared : Shared} {net net' : List Packet} (howing : Owing p owed)
    (htask : p.tasks slot = some ⟨kind, .step o next⟩)
    (hop : o.Run node now ⟨p.shared, net⟩ r ⟨shared, net'⟩) :
    Owing ({ p with shared := shared }.set slot (some ⟨kind, next r⟩))
      (Function.update owed slot (probeBrackets.after (owed slot) o)) where
  balanced slot' t ht := by
    rcases Process.tasks_set_some ht with ⟨rfl, heq⟩ | ⟨hne, ht⟩
    · obtain rfl := Option.some.inj heq
      rw [Function.update_self]
      exact (howing.balanced slot' _ htask).2 r
    · rw [Function.update_of_ne hne]
      exact howing.balanced slot' t ht
  plain slot' t ht hkind := by
    rcases Process.tasks_set_some ht with ⟨rfl, heq⟩ | ⟨hne, ht⟩
    · obtain rfl := Option.some.inj heq
      obtain ⟨hplain, hnone⟩ := howing.plain slot' _ htask hkind
      have hopens : probeBrackets.opens o = none := by
        by_contra hopen
        exact hplain.1 hopen
      refine ⟨hplain.2 r, ?_⟩
      rw [Function.update_self, hnone]
      unfold Brackets.after
      rw [hopens]
      simp
    · rw [Function.update_of_ne hne]
      exact howing.plain slot' t ht hkind
  owner haborted seq hseq := by
    -- what is registered was registered just now, or before and not by what has been closed
    rcases hop.waiting hseq with hopens | ⟨hseq, hcloses⟩
    · refine ⟨slot, ?_, by simp [Process.tasks_set]⟩
      rw [Function.update_self]
      unfold Brackets.after
      rw [hopens]
    · obtain ⟨slot', howed, ht⟩ := howing.owner haborted seq hseq
      by_cases hne : slot' = slot
      · subst hne
        have hopens := (howing.balanced slot' _ htask).1 (by simp [howed])
        refine ⟨slot', ?_, by simp [Process.tasks_set]⟩
        rw [Function.update_self]
        unfold Brackets.after
        rw [hopens, howed]
        exact if_neg fun hsame => hcloses hsame.symm
      · refine ⟨slot', by rwa [Function.update_of_ne hne], ?_⟩
        rwa [Process.tasks_set, if_neg hne]

/-- A task that returns has nothing open, and what follows it starts with nothing. -/
lemma Owing.finish {out : kind.Out} {free : ℕ} (howing : Owing p owed)
    (htask : p.tasks slot = some ⟨kind, .ret out⟩) (hfree : p.tasks (.spawned free) = none) :
    ∃ owed', Owing (p.finish slot free kind out) owed' := by
  have hnone : owed slot = none := howing.balanced slot _ htask
  have hdrop := howing.drop (.inl hnone)
  have hgoes : ∀ kind', Owing (p.set slot (some (Task.start p.node kind'))) owed := fun kind' =>
    howing.start hnone p.node kind'
  cases kind with
  | datagram src body =>
    cases out with
    | none => exact ⟨owed, hdrop⟩
    | some relay =>
      have hne : Slot.spawned free ≠ slot := by
        rintro rfl
        exact absurd htask (by simp [hfree])
      have hidle : (p.set slot none).tasks (.spawned free) = none := by
        rw [Process.tasks_set, if_neg hne]
        exact hfree
      exact ⟨_, (hdrop.idle hidle).start (Function.update_self ..) p.node (.relay relay)⟩
  | relay | serve | sync | health | reaping => exact ⟨owed, hdrop⟩
  | join seeds =>
    cases out with
    | true => exact ⟨owed, hdrop.of_eq rfl rfl id⟩
    | false => exact ⟨owed, howing.of_eq rfl rfl id⟩
  | leaving =>
    refine ⟨owed, (hgoes .announcing).of_eq rfl rfl fun haborted => ?_⟩
    exact absurd (show true = false from haborted) (by simp)
  | announcing => exact ⟨owed, howing.of_eq rfl rfl id⟩
  | choosing order =>
    obtain ⟨target, rest⟩ := out
    cases target with
    | none => exact ⟨owed, (hgoes .sweeping).of_eq rfl rfl id⟩
    | some target => exact ⟨owed, (hgoes (.probing target)).of_eq rfl rfl id⟩
  | probing target => exact ⟨owed, hgoes (.judging target out)⟩
  | judging target acked => exact ⟨owed, hgoes .sweeping⟩
  | sweeping => exact ⟨owed, hgoes .reaping⟩

/-- In every process, somebody can tell whose probe is whose. -/
lemma Run.owing (hrun : Run h) (hp : h.now.procs q = some p) : ∃ owed, Owing p owed := by
  have hall : ∀ q p, h.now.procs q = some p → ∃ owed, Owing p owed := by
    refine hrun.invariant (P := fun c => ∀ q p, c.procs q = some p → ∃ owed, Owing p owed) ?_ ?_
    · exact fun q p hp => absurd hp (by simp [Cluster.empty])
    · intro h l c hrun ih hstep
      -- the process that moves, and the others
      have hset : ∀ {q₀ : NodeId} {p₀ : Process}, (∃ owed, Owing p₀ owed) →
          ∀ q p, (h.now.setProc q₀ p₀).procs q = some p → ∃ owed, Owing p owed := by
        intro q₀ p₀ howing q p hp
        rw [Cluster.procs_setProc] at hp
        split_ifs at hp with hq
        · rwa [← Option.some.inj hp]
        · exact ih q p hp
      -- a task starts where none ran
      have hstarts : ∀ {q₀ : NodeId} {p₀ : Process} {slot₀ : Slot} {kind₀ : Kind},
          h.now.procs q₀ = some p₀ → p₀.tasks slot₀ = none →
          ∃ owed, Owing (p₀.set slot₀ (some (Task.start p₀.node kind₀))) owed := by
        intro q₀ p₀ slot₀ kind₀ hp₀ hidle
        obtain ⟨owed, howing⟩ := ih q₀ p₀ hp₀
        exact ⟨_, (howing.idle hidle).start (Function.update_self ..) p₀.node kind₀⟩
      cases hstep with
      | tick | lose | duplicate | query => exact ih
      | start node seeds hnew hmay =>
        refine hset ⟨fun _ => none, ?_, ?_, ?_⟩
        · intro slot task htask
          simp only [Process.new, Option.ite_none_right_eq_some] at htask
          obtain rfl := Option.some.inj htask.2
          exact balanced_start node (.join seeds)
        · intro slot task htask _
          simp only [Process.new, Option.ite_none_right_eq_some] at htask
          obtain rfl := Option.some.inj htask.2
          exact ⟨unregistered_start id, rfl⟩
        · exact fun _ seq hseq => absurd rfl hseq
      | begins q₀ p₀ slot₀ kind₀ hp₀ _ _ hidle => exact hset (hstarts hp₀ hidle)
      | receive q₀ p₀ src body hp₀ _ _ hidle => exact hset (hstarts hp₀ hidle)
      | accept q₀ p₀ n conn body hp₀ _ _ hidle => exact hset (hstarts hp₀ hidle)
      | op q₀ p₀ slot₀ kind₀ o next r shared net hp₀ _ htask hop =>
        obtain ⟨owed, howing⟩ := ih q₀ p₀ hp₀
        exact hset ⟨_, howing.op htask hop⟩
      | finish q₀ p₀ slot₀ kind₀ out free hp₀ _ htask hfree =>
        obtain ⟨owed, howing⟩ := ih q₀ p₀ hp₀
        exact hset (howing.finish htask hfree)
      | cancel q₀ p₀ slot₀ hp₀ _ haborted =>
        obtain ⟨owed, howing⟩ := ih q₀ p₀ hp₀
        exact hset ⟨owed, howing.drop (.inr haborted)⟩
      | stop q₀ p₀ hp₀ =>
        obtain ⟨owed, howing⟩ := ih q₀ p₀ hp₀
        exact hset ⟨owed, howing.of_eq rfl rfl id⟩
  exact hall q p hp

/-- Every probe that is waited for is a running task's, and no task has two. -/
lemma Owing.exists_owner (howing : Owing p owed) (haborted : p.aborted = false) :
    ∃ owner : UInt32 → Slot,
      (∀ seq, p.shared.pending.waiting seq ≠ none →
        ∃ task, p.tasks (owner seq) = some task ∧ task.kind.probes) ∧
      ∀ seq seq', p.shared.pending.waiting seq ≠ none → p.shared.pending.waiting seq' ≠ none →
        owner seq = owner seq' → seq = seq' := by
  have howner : ∀ seq, ∃ slot, p.shared.pending.waiting seq ≠ none →
      owed slot = some seq ∧ p.tasks slot ≠ none := by
    intro seq
    by_cases hseq : p.shared.pending.waiting seq = none
    · exact ⟨.main, fun hwaits => absurd hseq hwaits⟩
    · obtain ⟨slot, hslot⟩ := howing.owner haborted seq hseq
      exact ⟨slot, fun _ => hslot⟩
  choose owner howner using howner
  refine ⟨owner, fun seq hseq => ?_, fun seq seq' hseq hseq' hsame => ?_⟩
  · obtain ⟨howed, htask⟩ := howner seq hseq
    obtain ⟨task, htask⟩ := Option.ne_none_iff_exists'.mp htask
    refine ⟨task, htask, ?_⟩
    by_contra hkind
    have hnone := (howing.plain _ task htask hkind).2
    exact absurd (hnone.symm.trans howed) (by simp)
  · have howed := (howner seq hseq).1
    rw [hsame, (howner seq' hseq').1] at howed
    exact (Option.some.inj howed).symm

/-! ## Ids of other nodes -/

/-- Nodes that have been started, everybody once. -/
structure Started (h : Trace) (ids : List NodeId) : Prop where
  nodup : ids.Nodup
  started : ∀ id ∈ ids, ∃ p, h.now.procs id = some p

/-- Ids of processes that were started, each once, and none of them `q`. -/
structure Others (q : NodeId) (ids : List NodeId) (h : Trace) : Prop extends Started h ids where
  own : q ∉ ids

lemma Started.length_le (hsize : h.now.AtMost N) {ids : List NodeId} (hstarted : Started h ids) :
    ids.length ≤ N := by
  obtain ⟨all, hcard, hall⟩ := hsize
  have hsub : ids.toFinset ⊆ all := by
    intro id hid
    obtain ⟨p, hp⟩ := hstarted.started id (List.mem_toFinset.mp hid)
    exact hall id p hp
  have hle := Finset.card_le_card hsub
  rw [List.toFinset_card_of_nodup hstarted.nodup] at hle
  exact hle.trans hcard

/-- Fewer ids than there are processes. -/
lemma Others.length_lt (hsize : h.now.AtMost N) (hp : h.now.procs q = some p) {ids : List NodeId}
    (hothers : Others q ids h) : ids.length < N := by
  have hstarted : Started h (q :: ids) := by
    refine ⟨List.nodup_cons.mpr ⟨hothers.own, hothers.nodup⟩, fun id hid => ?_⟩
    rcases List.mem_cons.mp hid with rfl | hid
    · exact ⟨p, hp⟩
    · exact hothers.started id hid
  exact hstarted.length_le hsize

lemma Others.later {ids : List NodeId} (hlater : Later h h') (hothers : Others q ids h) :
    Others q ids h' where
  nodup := hothers.nodup
  started id hid := by
    obtain ⟨p, hp⟩ := hothers.started id hid
    obtain ⟨p', hp', _⟩ := hlater.exists_grows hp
    exact ⟨p', hp'⟩
  own := hothers.own

lemma Others.sublist {ids ids' : List NodeId} (hsub : ids'.Sublist ids) (hothers : Others q ids h) :
    Others q ids' h where
  nodup := hothers.nodup.sublist hsub
  started id hid := hothers.started id (hsub.subset hid)
  own hid := hothers.own (hsub.subset hid)

lemma Others.perm {ids ids' : List NodeId} (hothers : Others q ids h) (hperm : ids'.Perm ids) :
    Others q ids' h where
  nodup := hperm.nodup_iff.mpr hothers.nodup
  started id hid := hothers.started id (hperm.mem_iff.mp hid)
  own hid := hothers.own (hperm.mem_iff.mp hid)

/-- The table holds ids of other nodes, each once. -/
lemma Run.others_ids (hrun : Run h) (hp : h.now.procs q = some p) :
    Others q p.shared.table.ids h where
  nodup := p.shared.table.nodup
  started id hid := by
    obtain ⟨m, hm, rfl⟩ := List.mem_map.mp hid
    obtain ⟨subject, hsubject, _⟩ := hrun.exists_subject hp (MemberTable.get_of_mem hm)
    exact ⟨subject, hsubject⟩
  own hid := by
    rw [MemberTable.mem_ids_iff, (hrun.sane hp).own] at hid
    exact absurd hid (by simp)

lemma Run.queue_sound (hrun : Run h) (hp : h.now.procs q = some p) :
    GossipQueue.Sound p.shared.queue := by
  have hall : ∀ q p, h.now.procs q = some p → GossipQueue.Sound p.shared.queue := by
    refine hrun.invariant (P := fun c => ∀ q p, c.procs q = some p →
      GossipQueue.Sound p.shared.queue) ?_ ?_
    · exact fun q p hp => absurd hp (by simp [Cluster.empty])
    · intro h l c _ ih hstep q p' hp'
      rcases hstep.proc_cases hp' with ⟨p, hp, hev⟩ | ⟨_, node, seeds, _, _, _, rfl⟩
      · have hold := ih q p hp
        rcases hev.shared with hshared | ⟨slot, kind, o, r, net, _, hop⟩
        · rwa [hshared]
        · have hqueue : p'.shared.queue = o.queueAfter p.shared.queue := hop.queue
          rw [hqueue]
          cases o with
          | push rumor size => exact hold.push
          | take => exact hold.take
          | _ => exact hold
      · exact ⟨List.nodup_nil, fun pending hpending => absurd hpending List.not_mem_nil⟩
  exact hall q p hp

/-- The queue is about nodes of the cluster, each once. -/
lemma Run.started_queue (hrun : Run h) (hp : h.now.procs q = some p) :
    Started h (p.shared.queue.map fun pending => pending.rumor.id) where
  nodup := (hrun.queue_sound hp).nodup
  started id hid := by
    obtain ⟨pending, hpending, rfl⟩ := List.mem_map.mp hid
    obtain ⟨subject, hsubject, _⟩ :=
      (hrun.vouched (.pending q p pending hp hpending)).authored.exists_process hrun
    exact ⟨subject, hsubject⟩

/-! ## The detector's order -/

/-- What the detector shuffles are ids of other nodes. -/
def shuffling (q : NodeId) : Contract Op Op.Res Trace where
  later := Later
  later_refl := .refl
  later_trans := .trans
  pre _ _ := True
  post o r h :=
    match o, r with
    | .shuffledIds, ids => Others q ids h
    | _, _ => True

/-- What a task leaves of the order. -/
def Kind.LeavesOrder (q : NodeId) : (kind : Kind) → kind.Out → Trace → Prop
  | .choosing _, (_, order), h => Others q order h
  | _, _, _ => True

lemma shuffled_nextInPass {order : List NodeId} (hothers : Others q order h) :
    Follows (shuffling q) (fun found h => Others q found.2 h) (nextInPass order) h := by
  induction order generalizing h with
  | nil => exact Follows.pure fun h' hlater => hothers.later hlater
  | cons id order ih =>
    have hrest : Others q order h := hothers.sublist (List.sublist_cons_self id order)
    refine Follows.call_bind (fun _ _ => trivial) fun member h₁ hlater _ => ?_
    have hrest₁ := hrest.later hlater
    cases member with
    | none => exact ih hrest₁
    | some member =>
      show Follows _ _ (if member.state.isDead then nextInPass order
        else Pure.pure (some member, order)) h₁
      split_ifs
      · exact ih hrest₁
      · exact Follows.pure fun h₂ hlater₂ => hrest₁.later hlater₂

lemma shuffled_nextInPasses (passes : ℕ) {order : List NodeId} (hothers : Others q order h) :
    Follows (shuffling q) (fun found h => Others q found.2 h) (nextInPasses passes order) h := by
  induction passes generalizing order h with
  | zero => exact Follows.pure fun h' hlater => hothers.later hlater
  | succ passes ih =>
    refine Follows.bind (shuffled_nextInPass hothers) fun found h₁ _ hfound => ?_
    obtain ⟨member, rest⟩ := found
    cases member with
    | some member => exact Follows.pure fun h₂ hlater₂ => hfound.later hlater₂
    | none => exact Follows.call_bind (fun _ _ => trivial) fun order h₂ _ hshuffled => ih hshuffled

/-- What a part of the turn leaves of the order are ids it had or the table's. -/
lemma shuffled_start (kind : Kind) (horder : ∀ order, kind = .choosing order → Others q order h) :
    Follows (shuffling q) (kind.LeavesOrder q) (kind.start node) h := by
  have hfree : ∀ {α : Type} {Q : α → Trace → Prop}, (∀ a h, Q a h) → ∀ (prog : Prog α) (h : Trace),
      Follows (shuffling q) Q prog h := by
    intro α Q hQ prog
    induction prog with
    | ret a => exact fun h => Follows.pure fun h' _ => hQ a h'
    | step o next ih => exact fun h h' _ => ⟨trivial, fun r h'' _ _ => ih r h''⟩
  cases kind with
  | choosing order => exact shuffled_nextInPasses 2 (horder order rfl)
  | _ => exact hfree (fun _ _ => trivial) _ h

lemma Follows.handsOver {out : kind.Out} {order : List NodeId} (hothers : Others q order h)
    (hfollows : Follows (shuffling q) (kind.LeavesOrder q) (.ret out) h) :
    Others q (kind.handsOver order out).2 h := by
  cases kind with
  | choosing =>
    obtain ⟨target, rest⟩ := out
    have hrest : Others q rest h := hfollows.result
    cases target with
    | none => exact hrest
    | some target => exact hrest
  | _ => exact hothers

/-- The order only ever holds ids of other nodes, everybody once. -/
lemma Run.others_order (hrun : Run h) (hp : h.now.procs q = some p) (halive : p.stopped = false) :
    Others q p.order h ∧ ∀ slot task, p.tasks slot = some task →
      Follows (shuffling q) (task.kind.LeavesOrder q) task.prog h := by
  have hall : ∀ q p, h.now.procs q = some p → p.stopped = false → Others q p.order h ∧
      ∀ slot task, p.tasks slot = some task →
        Follows (shuffling q) (task.kind.LeavesOrder q) task.prog h := by
    refine History.IsRun.induction (P := fun h => ∀ q p, h.now.procs q = some p →
      p.stopped = false → Others q p.order h ∧ ∀ slot task, p.tasks slot = some task →
        Follows (shuffling q) (task.kind.LeavesOrder q) task.prog h) hrun ?_ ?_
    · rintro c rfl q p hp
      exact absurd hp (by simp [History.init, Cluster.empty])
    · intro h l c hrun ih hstep q p' hp' halive
      have hrun : Run h := hrun
      have hlater : Later h (h.push l c) := .single hstep
      have horder : Others q p'.order (h.push l c) := by
        rcases hstep.proc_cases hp' with ⟨p, hp, hev⟩ | ⟨_, node, seeds, _, _, _, rfl⟩
        · have hrunning := hev.running halive
          obtain ⟨hold, htasks⟩ := ih q p hp hrunning
          cases hstep.turns hp (fun _ slot _ ht => hrun.slots hp hrunning ht) hp' with
          | aside _ _ _ horder => exact horder ▸ hold.later hlater
          | begun _ _ _ _ horder => exact horder ▸ hold.later hlater
          | moved _ _ _ _ _ _ horder => exact horder ▸ hold.later hlater
          | cancelled _ _ horder => exact horder ▸ hold.later hlater
          | finished kind out _ htask horder =>
            rw [horder]
            exact Others.later hlater (Follows.handsOver hold (htasks _ _ htask))
        · exact ⟨⟨List.nodup_nil, fun id hid => absurd hid List.not_mem_nil⟩, List.not_mem_nil⟩
      refine ⟨horder, fun slot task htask => ?_⟩
      have hother : ∀ kind, (∀ order, kind ≠ .choosing order) →
          Follows (shuffling q) ((Task.start p'.node kind).kind.LeavesOrder q)
            (Task.start p'.node kind).prog (h.push l c) := fun kind hkind =>
        shuffled_start kind fun order heq => absurd heq (hkind order)
      cases Task.arises hstep hp' halive htask with
      | kept p _ hp halive htask₀ => exact ((ih q p hp halive).2 slot task htask₀).mono hlater
      | moved p kind o next r net hp halive htask₀ hl hop =>
        refine ((ih q p hp halive).2 slot _ htask₀).step.2 r _ hlater ?_
        cases o with
        -- a shuffle is of the ids in the table, where the node itself is not
        | shuffledIds =>
          have hperm : r.Perm p.shared.table.ids := hop.1
          exact ((hrun.others_ids hp).perm hperm).later hlater
        | _ => trivial
      | followed p slot₀ kind₀ out free kind _ _ _ _ hnext =>
        refine hother kind ?_
        cases hnext <;> simp
      | begun p kind hp halive _ hl hbegins =>
        refine shuffled_start kind fun order heq => ?_
        subst heq
        cases hbegins with
        | detector => exact (ih q p hp halive).1.later hlater
      | received => exact hother _ (by simp)
      | accepted => exact hother _ (by simp)
      | joining => exact hother _ (by simp)
  exact hall q p hp halive

/-! ## What a node keeps -/

/-- The table, the queue and what is left of the detector's shuffle never outgrow the cluster, and
as long as the loops run there is no probe waiting but one for each task that is at one. -/
theorem kept_is_bounded (hrun : Run h) (hsize : h.now.AtMost N) (hp : h.now.procs q = some p)
    (halive : p.stopped = false) :
    p.shared.table.len < N ∧ p.shared.queue.length ≤ N ∧ p.order.length < N ∧
      (p.aborted = false → ∃ owner : UInt32 → Slot,
        (∀ seq, p.shared.pending.waiting seq ≠ none →
          ∃ task, p.tasks (owner seq) = some task ∧ task.kind.probes) ∧
        ∀ seq seq', p.shared.pending.waiting seq ≠ none →
          p.shared.pending.waiting seq' ≠ none → owner seq = owner seq' → seq = seq') := by
  have htable := (hrun.others_ids hp).length_lt hsize hp
  have hqueue := (hrun.started_queue hp).length_le hsize
  have horder := (hrun.others_order hp halive).1.length_lt hsize hp
  rw [MemberTable.ids, List.length_map] at htable
  rw [List.length_map] at hqueue
  refine ⟨htable, hqueue, horder, fun hloops => ?_⟩
  obtain ⟨owed, howing⟩ := hrun.owing hp
  exact howing.exists_owner hloops

/-- A node that waits for the answer to a ping: the probe it has registered is its detector's. -/
theorem kept_is_bounded_probing : ∃ (h : Trace) (p : Process) (owner : UInt32 → Slot), Run h ∧
    h.now.procs alpha.id = some p ∧ p.shared.table.len = 1 ∧
    p.shared.pending.waiting 0 = some (beta.id, 0) ∧
    p.shared.table.len < 2 ∧ p.shared.queue.length ≤ 2 ∧ p.order.length < 2 ∧
    (∃ task, p.tasks (owner 0) = some task ∧ task.kind.probes) ∧
    ∀ seq, p.shared.pending.waiting seq ≠ none → owner 0 = owner seq → 0 = seq := by
  obtain ⟨h₀, h, c, n, task, task', hbefore, hdraws, hasks, hnow⟩ := exists_asked
  have hrun : Run h := ⟨.empty, rfl, (hbefore.later.push hdraws).trans hasks.later⟩
  have hsize : h.now.AtMost 2 := hnow ▸ Cluster.atMost_duo ..
  set p := ((Process.new alpha []).at (.spawned n) heard task).at .detector asking
    ⟨.probing peer, awaiting (0 + PROBE_TIMEOUT)⟩ with hp
  have halpha : h.now.procs alpha.id = some p := by rw [hnow, Cluster.procs_duo_alpha]
  have hwait : p.shared.pending.waiting 0 = some (beta.id, 0) := waiting_asking
  obtain ⟨htable, hqueue, horder, howned⟩ := kept_is_bounded hrun hsize halpha rfl
  obtain ⟨owner, howner, hinj⟩ := howned rfl
  have hwaits : p.shared.pending.waiting 0 ≠ none := by simp [hwait]
  refine ⟨h, p, owner, hrun, halpha, ?_, hwait, htable, hqueue, horder, howner 0 hwaits,
    fun seq hseq => hinj 0 seq hwaits hseq⟩
  show heard.table.members.length = 1
  rw [members_heard]
  rfl

end Dalila
