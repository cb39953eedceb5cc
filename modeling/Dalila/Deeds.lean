import Dalila.Waiting

/-!
# What a task has done itself

The history of a run holds every operation of every task. `deeds` is the regime of one task: between
two of its operations only others move, so it finds what it left, as far as the others let it.
`Since` is what has happened since a task began, and `Run.deeds` says that a run holds nothing but
what the tasks' programs may do.
-/

namespace Dalila

open Program

variable {h h' h₀ h₁ h₂ : Trace} {q : NodeId} {p : Process} {slot : Slot} {kind : Kind}
  {l l' : Label}

/-! ## What happened -/

/-- On the way to `h`, the step after `h₁` was `l`. -/
def Happened (l : Label) (h₁ h : Trace) : Prop :=
  Run h₁ ∧ ∃ c, Step h₁.now l c ∧ Later (h₁.push l c) h

lemma Happened.took (hl : Happened l h₁ h) : History.Took Step l h₁ h := hl.2

lemma Happened.later (hl : Happened l h₁ h) (hlater : Later h h') : Happened l h₁ h' :=
  ⟨hl.1, hl.took.later hlater⟩

lemma Happened.before (hl : Happened l h₁ h) : Later h₁ h := hl.took.before

lemma Happened.of_step {c : Cluster} (hrun : Run h) (hstep : Step h.now l c) :
    Happened l h (h.push l c) := ⟨hrun, History.Took.of_step hstep⟩

/-- What happened until a step was taken was that step, or happened before. -/
lemma Happened.of_push {c : Cluster} (hl : Happened l h₁ (h.push l' c)) :
    h₁ = h ∧ l = l' ∨ Happened l h₁ h := by
  rcases hl.took.of_push with hsame | hfirst
  · exact .inl hsame
  · exact .inr ⟨hl.1, hfirst⟩

/-- Of two things that happened, one happened first. -/
lemma Happened.total (hl : Happened l h₁ h) (hl' : Happened l' h₂ h) :
    h₁ = h₂ ∧ l = l' ∨ Happened l h₁ h₂ ∨ Happened l' h₂ h₁ := by
  rcases hl.took.total hl'.took with hsame | hfirst | hfirst
  · exact .inl hsame
  · exact .inr (.inl ⟨hl.1, hfirst⟩)
  · exact .inr (.inr ⟨hl'.1, hfirst⟩)

/-- Nothing happens twice: no history comes after itself. -/
lemma Happened.irrefl (hl : Happened l h h) : False :=
  absurd hl.took.length_lt (lt_irrefl _)

/-! ## The operations of one task -/

/-- An operation of the task in one slot of one process. -/
def Label.acts (q : NodeId) (slot : Slot) : Label → Prop
  | .op q' slot' _ _ _ => q' = q ∧ slot' = slot
  | _ => False

/-- The task in one slot of one process is over. -/
def Label.ends (q : NodeId) (slot : Slot) : Label → Prop
  | .finish q' slot' _ _ => q' = q ∧ slot' = slot
  | .cancel q' slot' => q' = q ∧ slot' = slot
  | _ => False

/-- A task of `kind` in `slot` on `q` adds its operations to the history, and calls one only
where it `may`. -/
def deeds (q : NodeId) (slot : Slot) (kind : Kind) (may : Op → Trace → Prop) :
    Regime Op Op.Res Trace where
  others := LaterBy fun l => ¬ l.acts q slot
  others_refl := .refl
  others_trans := .trans
  may := may
  does o r h h' := Run h ∧ ∃ c, Step h.now (.op q slot kind o r) c ∧
    h' = h.push (.op q slot kind o r) c

variable {may : Op → Trace → Prop}

lemma Later.of_others (hothers : (deeds q slot kind may).others h h') : Later h h' :=
  LaterBy.later hothers

lemma Later.of_does {o : Op} {r : o.Res} (hdoes : (deeds q slot kind may).does o r h h') :
    Later h h' := by
  obtain ⟨_, c, hstep, rfl⟩ := hdoes
  exact .single hstep

lemma Later.of_both {t : Trace} {o : Op} {r : o.Res}
    (hothers : (deeds q slot kind may).others h t)
    (hdoes : (deeds q slot kind may).does o r t h') : Later h h' :=
  (Later.of_others hothers).trans (Later.of_does hdoes)

/-- A task leaves a later history than it found. -/
lemma keeps_later {α : Type} {prog : Prog α} {Q : α → Trace → Prop}
    (hkeeps : Keeps (deeds q slot kind may) Q prog h) :
    Keeps (deeds q slot kind may) (fun a h' => Q a h' ∧ Later h h') prog h := by
  have hall : ∀ h₁, Later h h₁ → Keeps (deeds q slot kind may) Q prog h₁ →
      Keeps (deeds q slot kind may) (fun a h' => Q a h' ∧ Later h h') prog h₁ := by
    clear hkeeps
    induction prog with
    | ret a => exact fun h₁ hlater hret h₂ ho => ⟨hret h₂ ho, hlater.trans (Later.of_others ho)⟩
    | step o next ih =>
      intro h₁ hlater hstep h₂ ho
      obtain ⟨hmay, hnext⟩ := hstep h₂ ho
      refine ⟨hmay, fun r h₃ hd => ih r h₃ ?_ (hnext r h₃ hd)⟩
      exact hlater.trans (Later.of_both ho hd)
  exact hall h (.refl h) hkeeps

lemma Happened.of_does {o : Op} {r : o.Res} (hdoes : (deeds q slot kind may).does o r h h') :
    Happened (.op q slot kind o r) h h' := by
  obtain ⟨hrun, c, hstep, rfl⟩ := hdoes
  exact .of_step hrun hstep

/-- A task has been in a slot since `h₀`, when it started. -/
structure Since (q : NodeId) (slot : Slot) (kind : Kind) (h₀ h : Trace) : Prop where
  run : Run h₀
  start : ∃ p, h₀.now.procs q = some p ∧ p.tasks slot = some (.start p.node kind)
  later : LaterBy (fun l => ¬ l.ends q slot) h₀ h

/-- A task that was cancelled is gone. -/
lemma Step.tasks_cancel {c c' : Cluster} (hstep : Step c (.cancel q slot) c') {p' : Process}
    (hp' : c'.procs q = some p') : p'.tasks slot = none := by
  cases hstep with
  | cancel _ p =>
    obtain rfl := Cluster.eq_of_procs_setProc hp'
    rw [Process.tasks_set, if_pos rfl]

/-- The end of one task leaves the others alone. -/
lemma Process.finish_other {slot' : Slot} {free : ℕ} {out : kind.Out} (hslot : slot' ≠ slot)
    (hfree : slot' ≠ .spawned free) : (p.finish slot free kind out).tasks slot' = p.tasks slot' := by
  have hset : ∀ task, (p.set slot task).tasks slot' = p.tasks slot' := fun task => by
    rw [Process.tasks_set, if_neg hslot]
  cases kind with
  | datagram src body =>
    cases out with
    | none => exact hset none
    | some relay =>
      show ((p.set slot none).set (.spawned free) _).tasks slot' = _
      rw [Process.tasks_set, if_neg hfree]
      exact hset none
  | join seeds =>
    cases out with
    | true => exact hset none
    | false => rfl
  | announcing => rfl
  | choosing order =>
    obtain ⟨target, rest⟩ := out
    cases target <;> exact hset _
  | _ => exact hset _

/-- A task that does not end stays in its slot, and moves on by its own operations only. -/
lemma Step.keeps_task {c c' : Cluster} (hstep : Step c l c') (hp : c.procs q = some p)
    {prog : Prog kind.Out} (htask : p.tasks slot = some ⟨kind, prog⟩) (hl : ¬ l.ends q slot) :
    ∃ p' prog', c'.procs q = some p' ∧ p'.tasks slot = some ⟨kind, prog'⟩ ∧
      (prog' = prog ∧ ¬ l.acts q slot ∨ ∃ (o : Op) (next : o.Res → Prog kind.Out) (r : o.Res),
        prog = .step o next ∧ l = .op q slot kind o r ∧ prog' = next r) := by
  -- a step of another process, or one that leaves the slot alone
  have hkept : ∀ {q₀ : NodeId} {p₀ p₀' : Process}, c.procs q₀ = some p₀ → ¬ l.acts q slot →
      (q = q₀ → p₀'.tasks slot = p₀.tasks slot) →
      ∃ p' prog', (c.setProc q₀ p₀').procs q = some p' ∧ p'.tasks slot = some ⟨kind, prog'⟩ ∧
        (prog' = prog ∧ ¬ l.acts q slot ∨ ∃ (o : Op) (next : o.Res → Prog kind.Out) (r : o.Res),
          prog = .step o next ∧ l = .op q slot kind o r ∧ prog' = next r) := by
    intro q₀ p₀ p₀' hp₀ hacts hsame
    rw [Cluster.procs_setProc]
    by_cases hq : q = q₀
    · rw [if_pos hq]
      rw [← hq, hp] at hp₀
      rw [← Option.some.inj hp₀, htask] at hsame
      exact ⟨p₀', prog, rfl, hsame hq, .inl ⟨rfl, hacts⟩⟩
    · rw [if_neg hq]
      exact ⟨p, prog, hp, htask, .inl ⟨rfl, hacts⟩⟩
  -- an idle slot is another one
  have hbusy : ∀ {q₀ : NodeId} {p₀ : Process} {slot₀ : Slot} {task₀ : Option Task},
      c.procs q₀ = some p₀ → p₀.tasks slot₀ = none → q = q₀ →
      (p₀.set slot₀ task₀).tasks slot = p₀.tasks slot := by
    intro q₀ p₀ slot₀ task₀ hp₀ hidle hq
    rw [← hq, hp] at hp₀
    rw [← Option.some.inj hp₀] at hidle ⊢
    rw [Process.tasks_set, if_neg]
    intro hslot
    rw [← hslot, htask] at hidle
    exact absurd hidle (by simp)
  cases hstep with
  | tick | lose | duplicate | query => exact ⟨p, prog, hp, htask, .inl ⟨rfl, not_false⟩⟩
  | start node seeds hnew hmay =>
    have hq : q ≠ node.id := fun hq => by simp [hq, hnew] at hp
    refine ⟨p, prog, ?_, htask, .inl ⟨rfl, not_false⟩⟩
    rw [Cluster.procs_setProc, if_neg hq]
    exact hp
  | begins q₀ p₀ slot₀ kind₀ hp₀ _ _ hidle => exact hkept hp₀ not_false (hbusy hp₀ hidle)
  | receive q₀ p₀ src body hp₀ _ _ hidle => exact hkept hp₀ not_false (hbusy hp₀ hidle)
  | accept q₀ p₀ n conn body hp₀ _ _ hidle => exact hkept hp₀ not_false (hbusy hp₀ hidle)
  | op q₀ p₀ slot₀ kind₀ o next r shared net hp₀ _ htask₀ hop =>
    by_cases hmine : q₀ = q ∧ slot₀ = slot
    · obtain ⟨hq, hslot⟩ := hmine
      subst hq hslot
      obtain rfl : p = p₀ := Option.some.inj (hp.symm.trans hp₀)
      obtain ⟨hkind, hprog⟩ := Task.mk.inj (Option.some.inj (htask.symm.trans htask₀))
      subst hkind
      refine ⟨_, next r, if_pos rfl, ?_, .inr ⟨o, next, r, eq_of_heq hprog, rfl, rfl⟩⟩
      rw [Process.tasks_set, if_pos rfl]
    · refine hkept hp₀ hmine fun hq => ?_
      rw [Process.tasks_set, if_neg fun hslot => hmine ⟨hq.symm, hslot.symm⟩]
  | finish q₀ p₀ slot₀ kind₀ out free hp₀ _ htask₀ hfree =>
    refine hkept hp₀ not_false fun hq => Process.finish_other ?_ ?_
    · exact fun hslot => hl ⟨hq.symm, hslot.symm⟩
    · intro hslot
      rw [← hq, hp] at hp₀
      rw [← Option.some.inj hp₀, ← hslot, htask] at hfree
      exact absurd hfree (by simp)
  | cancel q₀ p₀ slot₀ hp₀ =>
    refine hkept hp₀ not_false fun hq => ?_
    rw [Process.tasks_set, if_neg fun hslot => hl ⟨hq.symm, hslot.symm⟩]
  | stop q₀ p₀ hp₀ => exact hkept hp₀ not_false fun _ => rfl

/-- What every kind of task keeps to from its start, a task keeps to until it ends. -/
theorem Since.keeps {may : Trace → NodeId → Slot → Kind → Op → Trace → Prop}
    {Q : Trace → NodeId → Slot → (kind : Kind) → kind.Out → Trace → Prop}
    (hstart : ∀ h₀ q (node : LocalNode) slot kind, node.id = q →
      Keeps (deeds q slot kind (may h₀ q slot kind)) (Q h₀ q slot kind) (kind.start node) h₀)
    (hsince : Since q slot kind h₀ h) :
    ∃ p prog, h.now.procs q = some p ∧ p.tasks slot = some ⟨kind, prog⟩ ∧
      Keeps (deeds q slot kind (may h₀ q slot kind)) (Q h₀ q slot kind) prog h := by
  obtain ⟨hrun, ⟨p₀, hp₀, htask₀⟩, hlater⟩ := hsince
  induction hlater with
  | refl =>
    have hid : p₀.node.id = q := (hrun.sane hp₀).id
    exact ⟨p₀, _, hp₀, htask₀, hstart _ q p₀.node slot kind hid⟩
  | @push h l c hext hstep ih =>
    obtain ⟨p, prog, hp, htask, hkeeps⟩ := ih
    obtain ⟨p', prog', hp', htask', hmoved⟩ := hstep.1.keeps_task hp htask hstep.2
    refine ⟨p', prog', hp', htask', ?_⟩
    rcases hmoved with ⟨rfl, hothers⟩ | ⟨o, next, r, rfl, rfl, rfl⟩
    · exact hkeeps.mono (.push (.refl h) ⟨hstep.1, hothers⟩)
    · have hrun' : Run h := hrun.extends (hext.mono fun _ _ _ hstep => hstep.1)
      exact hkeeps.step.2 r _ ⟨hrun', c, hstep.1, rfl⟩

/-- What every kind of task leaves behind, a task has left when it returns. -/
theorem Since.returned {may : Trace → NodeId → Slot → Kind → Op → Trace → Prop}
    {Q : Trace → NodeId → Slot → (kind : Kind) → kind.Out → Trace → Prop}
    (hstart : ∀ h₀ q (node : LocalNode) slot kind, node.id = q →
      Keeps (deeds q slot kind (may h₀ q slot kind)) (Q h₀ q slot kind) (kind.start node) h₀)
    (hsince : Since q slot kind h₀ h) {out : kind.Out} {c : Cluster}
    (hstep : Step h.now (.finish q slot kind out) c) : Q h₀ q slot kind out h := by
  obtain ⟨p, prog, hp, htask, hkeeps⟩ := hsince.keeps hstart
  cases hstep with
  | finish _ p₀ _ _ _ free hp₀ _ htask₀ =>
    obtain rfl : p = p₀ := Option.some.inj (hp.symm.trans hp₀)
    have hprog : prog = .ret out :=
      eq_of_heq (Task.mk.inj (Option.some.inj (htask.symm.trans htask₀))).2
    rw [hprog] at hkeeps
    exact hkeeps.result

/-- Every task has started. -/
lemma Run.since (hrun : Run h) (hp : h.now.procs q = some p) (halive : p.stopped = false)
    {task : Task} (htask : p.tasks slot = some task) : ∃ h₀, Since q slot task.kind h₀ h := by
  have hall : ∀ q p slot task, h.now.procs q = some p → p.stopped = false →
      p.tasks slot = some task → ∃ h₀, Since q slot task.kind h₀ h := by
    refine History.IsRun.induction (P := fun h => ∀ q p slot task, h.now.procs q = some p →
      p.stopped = false → p.tasks slot = some task → ∃ h₀, Since q slot task.kind h₀ h) hrun ?_ ?_
    · rintro c rfl q p slot task hp
      exact absurd hp (by simp [History.init, Cluster.empty])
    · intro h l c (hrun : Run h) ih hstep q p' slot task hp' halive htask
      cases Task.arises hstep hp' halive htask with
      | kept p _ hp halive htask₀ hl hl' =>
        obtain ⟨h₀, hsince⟩ := ih q p slot task hp halive htask₀
        have hgoes : ¬ l.ends q slot := by
          cases l with
          | finish q' slot' kind out =>
            rintro ⟨rfl, rfl⟩
            exact hl' kind out rfl
          | cancel q' slot' =>
            rintro ⟨rfl, rfl⟩
            exact absurd (hstep.tasks_cancel hp') (by simp [htask])
          | _ => exact not_false
        exact ⟨h₀, hsince.run, hsince.start, hsince.later.push ⟨hstep, hgoes⟩⟩
      | moved p kind o next r net hp halive htask₀ hl =>
        subst hl
        obtain ⟨h₀, hsince⟩ := ih q p slot _ hp halive htask₀
        exact ⟨h₀, hsince.run, hsince.start, hsince.later.push ⟨hstep, not_false⟩⟩
      | _ => exact ⟨_, hrun.push hstep, ⟨p', hp', htask⟩, .refl _⟩
  exact hall q p slot task hp halive htask

/-- What every kind of task keeps to from its start, every task keeps to. -/
theorem Run.deeds {may : Trace → NodeId → Slot → Kind → Op → Trace → Prop}
    {Q : Trace → NodeId → Slot → (kind : Kind) → kind.Out → Trace → Prop}
    (hstart : ∀ h₀ q (node : LocalNode) slot kind, node.id = q →
      Keeps (deeds q slot kind (may h₀ q slot kind)) (Q h₀ q slot kind) (kind.start node) h₀)
    (hrun : Run h) (hp : h.now.procs q = some p) (halive : p.stopped = false) {task : Task}
    (htask : p.tasks slot = some task) :
    ∃ h₀, Since q slot task.kind h₀ h ∧
      Keeps (Dalila.deeds q slot task.kind (may h₀ q slot task.kind)) (Q h₀ q slot task.kind)
        task.prog h := by
  obtain ⟨kind, prog⟩ := task
  obtain ⟨h₀, hsince⟩ := hrun.since hp halive htask
  obtain ⟨p', prog', hp', htask', hkeeps⟩ := hsince.keeps hstart
  obtain rfl : p = p' := Option.some.inj (hp.symm.trans hp')
  have hprog : prog' = prog :=
    eq_of_heq (Task.mk.inj (Option.some.inj (htask'.symm.trans htask))).2
  rw [hprog] at hkeeps
  exact ⟨h₀, hsince, hkeeps⟩

end Dalila
