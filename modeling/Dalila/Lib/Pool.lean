import Mathlib.Logic.Function.Basic
import Dalila.Lib.Program
import Dalila.Lib.History

/-!
# Tasks over one shared state

A pool is a state and any number of tasks, each with what is left of its program. A step starts
a task or runs the next operation of one. A task's number is never used again, so the history of
a run holds the operations of every task, in the order they took place.
-/

universe u v w

namespace Program

/-- A shared state, and what is left of every task. -/
structure Pool (Op : Type u) (Res : Op → Type v) (α : Type v) (σ : Type w) where
  state : σ
  tasks : ℕ → Option (Program Op Res α)

namespace Pool

variable {Op : Type u} {Res : Op → Type v} {α : Type v} {σ : Type w}

inductive Label (Op : Type u) (Res : Op → Type v) (α : Type v) where
  | start (i : ℕ) (p : Program Op Res α)
  | op (i : ℕ) (o : Op) (r : Res o)

/-- An operation of the task `i`. -/
def Label.acts (i : ℕ) : Label Op Res α → Prop
  | .start _ _ => False
  | .op j _ _ => j = i

inductive Step (run : ∀ o, σ → Res o → σ → Prop) (starts : Program Op Res α → Prop) :
    Pool Op Res α σ → Label Op Res α → Pool Op Res α σ → Prop where
  | start (pool : Pool Op Res α σ) (i : ℕ) (p : Program Op Res α) (hnew : pool.tasks i = none)
      (hp : starts p) :
      Step run starts pool (.start i p) { pool with tasks := Function.update pool.tasks i (some p) }
  | op (pool : Pool Op Res α σ) (i : ℕ) (o : Op) (next : Res o → Program Op Res α) (r : Res o)
      (t : σ) (htask : pool.tasks i = some (.step o next)) (hrun : run o pool.state r t) :
      Step run starts pool (.op i o r) ⟨t, Function.update pool.tasks i (some (next r))⟩

abbrev Trace (Op : Type u) (Res : Op → Type v) (α : Type v) (σ : Type w) :=
  History (Pool Op Res α σ) (Label Op Res α)

variable {run : ∀ o, σ → Res o → σ → Prop} {starts : Program Op Res α → Prop}
  {h h' : Trace Op Res α σ} {i : ℕ} {p : Program Op Res α}

/-! ## One step, seen from one task -/

/-- A task that is there stays as it is, or moves on by its next operation. -/
theorem Step.task {s t : Pool Op Res α σ} {l : Label Op Res α} (hstep : Step run starts s l t)
    (htask : s.tasks i = some p) :
    t.tasks i = some p ∧ ¬ l.acts i ∨ ∃ (o : Op) (next : Res o → Program Op Res α) (r : Res o),
      p = .step o next ∧ l = .op i o r ∧ t.tasks i = some (next r) := by
  cases hstep with
  | start j q hnew hq =>
    have hi : i ≠ j := fun hi => absurd ((hi ▸ hnew).symm.trans htask) (by simp)
    exact .inl ⟨(Function.update_of_ne hi ..).trans htask, not_false⟩
  | op j o next r t hnext hop =>
    by_cases hi : i = j
    · subst hi
      obtain rfl : p = .step o next := Option.some.inj (htask.symm.trans hnext)
      exact .inr ⟨o, next, r, rfl, rfl, Function.update_self ..⟩
    · exact .inl ⟨(Function.update_of_ne hi ..).trans htask, fun hacts => hi hacts.symm⟩

/-- A task was there as it is, or moved on by an operation, or has just been started. -/
theorem Step.of_task {s t : Pool Op Res α σ} {l : Label Op Res α} (hstep : Step run starts s l t)
    (htask : t.tasks i = some p) :
    s.tasks i = some p ∧ ¬ l.acts i ∨
      (∃ (o : Op) (next : Res o → Program Op Res α) (r : Res o),
        s.tasks i = some (.step o next) ∧ l = .op i o r ∧ p = next r) ∨ starts p := by
  cases hstep with
  | start j q hnew hq =>
    have htask : Function.update s.tasks j (some q) i = some p := htask
    by_cases hi : i = j
    · rw [hi, Function.update_self] at htask
      rw [← Option.some.inj htask]
      exact .inr (.inr hq)
    · rw [Function.update_of_ne hi] at htask
      exact .inl ⟨htask, not_false⟩
  | op j o next r t hnext hop =>
    have htask : Function.update s.tasks j (some (next r)) i = some p := htask
    by_cases hi : i = j
    · subst hi
      rw [Function.update_self] at htask
      exact .inr (.inl ⟨o, next, r, hnext, rfl, (Option.some.inj htask).symm⟩)
    · rw [Function.update_of_ne hi] at htask
      exact .inl ⟨htask, fun hacts => hi hacts.symm⟩

/-- What the programs have that tasks start with, and what is left of them after any operation,
every task of a run has. -/
theorem forall_tasks_of_run {Init : Pool Op Res α σ → Prop} {S : ℕ → Program Op Res α → Prop}
    (hinit : ∀ pool, Init pool → ∀ i p, pool.tasks i = some p → S i p)
    (hstart : ∀ i p, starts p → S i p) (hnext : ∀ i o next, S i (.step o next) → ∀ r, S i (next r))
    (hrun : History.IsRun (Step run starts) Init h) (htask : h.now.tasks i = some p) : S i p := by
  have hall : ∀ i p, h.now.tasks i = some p → S i p := by
    refine History.IsRun.induction (P := fun h => ∀ i p, h.now.tasks i = some p → S i p) hrun
      hinit ?_
    intro h l s _ ih hstep i p htask
    rcases hstep.of_task htask with ⟨hkept, _⟩ | ⟨o, next, r, hbefore, _, rfl⟩ | hstarts
    · exact ih i p hkept
    · exact hnext i o next (ih i _ hbefore) r
    · exact hstart i p hstarts
  exact hall i p htask

/-- A task may run on by itself. -/
theorem exists_extends_of_path {ok : Op → Prop} {p' : Program Op Res α} {s t : σ}
    (hpath : Path run ok p s p' t) (hnow : h.now.state = s) (htask : h.now.tasks i = some p) :
    ∃ h', History.Extends (Step run starts) h h' ∧
      h'.now = ⟨t, Function.update h.now.tasks i (some p')⟩ := by
  induction hpath generalizing h with
  | refl p s =>
    refine ⟨h, .refl h, ?_⟩
    rw [← hnow, ← htask, Function.update_eq_self]
  | @step o next p' s t u r ho hrun hnext ih =>
    let s₁ : Pool Op Res α σ := ⟨t, Function.update h.now.tasks i (some (next r))⟩
    have hstep : Step run starts h.now (.op i o r) s₁ := .op h.now i o next r t htask (hnow ▸ hrun)
    obtain ⟨h', hext, hnow'⟩ := ih (h := h.push (.op i o r) s₁) rfl (Function.update_self ..)
    refine ⟨h', (History.Extends.single hstep).trans hext, ?_⟩
    have htasks : Function.update (Function.update h.now.tasks i (some (next r))) i (some p') =
        Function.update h.now.tasks i (some p') := Function.update_idem ..
    rw [hnow', ← htasks]
    rfl

/-! ## What a task has done itself -/

/-- The task `i` adds its operations to the history, and calls one only where it `may`. -/
def deeds (run : ∀ o, σ → Res o → σ → Prop) (starts : Program Op Res α → Prop) (i : ℕ)
    (may : Op → Trace Op Res α σ → Prop) : Regime Op Res (Trace Op Res α σ) where
  others := History.Extends fun s l t => Step run starts s l t ∧ ¬ l.acts i
  others_refl := .refl
  others_trans := .trans
  may := may
  does o r h h' := ∃ s, Step run starts h.now (.op i o r) s ∧ h' = h.push (.op i o r) s

/-- What a task keeps to at one point of a run, it keeps to from then on. -/
theorem keeps_of_extends {may : Op → Trace Op Res α σ → Prop} {Q : α → Trace Op Res α σ → Prop}
    (hext : History.Extends (Step run starts) h h') (htask : h.now.tasks i = some p)
    (hkeeps : Keeps (deeds run starts i may) Q p h) :
    ∃ p', h'.now.tasks i = some p' ∧ Keeps (deeds run starts i may) Q p' h' := by
  induction hext with
  | refl => exact ⟨p, htask, hkeeps⟩
  | push hext hstep ih =>
    obtain ⟨p', htask', hkeeps'⟩ := ih
    rcases hstep.task htask' with ⟨hkept, hothers⟩ | ⟨o, next, r, rfl, rfl, hnext⟩
    · exact ⟨p', hkept, hkeeps'.mono (.push (.refl _) ⟨hstep, hothers⟩)⟩
    · exact ⟨next r, hnext, hkeeps'.step.2 r _ ⟨_, hstep, rfl⟩⟩

/-- What every program keeps to from its start, every task of a run keeps to. -/
theorem deeds_of_run {Init : Pool Op Res α σ → Prop} {may : ℕ → Op → Trace Op Res α σ → Prop}
    {Q : ℕ → α → Trace Op Res α σ → Prop} (hempty : ∀ pool, Init pool → ∀ i, pool.tasks i = none)
    (hstart : ∀ p, starts p → ∀ i h, Keeps (deeds run starts i (may i)) (Q i) p h)
    (hrun : History.IsRun (Step run starts) Init h) (htask : h.now.tasks i = some p) :
    Keeps (deeds run starts i (may i)) (Q i) p h := by
  have hall : ∀ i p, h.now.tasks i = some p → Keeps (deeds run starts i (may i)) (Q i) p h := by
    refine History.IsRun.induction (P := fun h => ∀ i p, h.now.tasks i = some p →
      Keeps (deeds run starts i (may i)) (Q i) p h) hrun ?_ ?_
    · intro pool hpool i p htask
      exact absurd (htask.symm.trans (hempty pool hpool i)) (by simp)
    · intro h l s _ ih hstep i p htask
      rcases hstep.of_task htask with ⟨hkept, hothers⟩ | ⟨o, next, r, hbefore, rfl, rfl⟩ | hstarts
      · exact (ih i p hkept).mono (.push (.refl h) ⟨hstep, hothers⟩)
      · exact (ih i _ hbefore).step.2 r _ ⟨_, hstep, rfl⟩
      · exact hstart p hstarts i _
  exact hall i p htask

end Pool

end Program
