import Dalila.Lib.Program

/-!
# Programs that clean up

Some operations open something, and others close it again. A program is *balanced* if it never has
more than one thing open, and nothing when it returns. Closing what is not open does no harm.
-/

namespace Program

universe u v

variable {Op : Type u} {Res : Op → Type v} {α β : Type v} {κ : Type*} [DecidableEq κ]

/-- What operations open and close. -/
structure Brackets (Op : Type u) (κ : Type*) where
  opens : Op → Option κ
  closes : Op → Option κ

variable (B : Brackets Op κ)

/-- What is open after an operation. -/
def Brackets.after (owed : Option κ) (o : Op) : Option κ :=
  match B.opens o with
  | some k => some k
  | none => if owed = B.closes o then none else owed

/-- The program closes what is open, and opens nothing before it has. -/
def Balanced : Option κ → Program Op Res α → Prop
  | owed, .ret _ => owed = none
  | owed, .step o next =>
    (owed ≠ none → B.opens o = none) ∧ ∀ r, Balanced (B.after owed o) (next r)

variable {B} {owed : Option κ}

theorem Balanced.pure (a : α) : Balanced B none (Pure.pure a : Program Op Res α) := rfl

theorem Balanced.call_bind {o : Op} {f : Res o → Program Op Res β}
    (hopens : owed ≠ none → B.opens o = none) (hf : ∀ r, Balanced B (B.after owed o) (f r)) :
    Balanced B owed (call o >>= f) := ⟨hopens, hf⟩

/-- An operation that neither opens nor closes. -/
theorem Balanced.call_bind_plain {o : Op} {f : Res o → Program Op Res β} (ho : B.opens o = none)
    (hc : B.closes o = none) (hf : ∀ r, Balanced B owed (f r)) :
    Balanced B owed (call o >>= f) := by
  refine .call_bind (fun _ => ho) fun r => ?_
  have hafter : B.after owed o = owed := by
    unfold Brackets.after
    rw [ho, hc]
    simp only
    split_ifs with howed
    · exact howed.symm
    · rfl
  rw [hafter]
  exact hf r

/-- Sequencing. -/
theorem Balanced.bind {p : Program Op Res α} {f : α → Program Op Res β}
    (hp : Balanced B owed p) (hf : ∀ a, Balanced B none (f a)) : Balanced B owed (p >>= f) := by
  show Balanced B owed (p.bind f)
  induction p generalizing owed with
  | ret a =>
    have howed : owed = none := hp
    rw [howed]
    exact hf a
  | step o next ih => exact ⟨hp.1, fun r => ih r (hp.2 r)⟩

/-- What is open stays open over a part that neither opens nor closes. -/
theorem Balanced.bind_plain {p : Program Op Res α} {f : α → Program Op Res β}
    (hp : AtWaits (fun o => B.opens o ≠ none ∨ B.closes o ≠ none) (fun _ => False) p)
    (hf : ∀ a, Balanced B owed (f a)) : Balanced B owed (p >>= f) := by
  show Balanced B owed (p.bind f)
  induction p with
  | ret a => exact hf a
  | step o next ih =>
    have hplain : ¬ (B.opens o ≠ none ∨ B.closes o ≠ none) := fun h => hp.1 h
    rw [not_or, not_not, not_not] at hplain
    exact Balanced.call_bind_plain hplain.1 hplain.2 fun r => ih r (hp.2 r)

/-- Who opens nothing has nothing to close. -/
theorem AtWaits.balanced {p : Program Op Res α}
    (hp : AtWaits (fun o => B.opens o ≠ none) (fun _ => False) p) : Balanced B none p := by
  induction p with
  | ret a => rfl
  | step o next ih =>
    have hopens : B.opens o = none := by
      by_contra hopen
      exact hp.1 hopen
    refine ⟨fun howed => absurd rfl howed, fun r => ?_⟩
    have hafter : B.after none o = none := by
      unfold Brackets.after
      rw [hopens]
      simp
    rw [hafter]
    exact ih r (hp.2 r)

end Program
