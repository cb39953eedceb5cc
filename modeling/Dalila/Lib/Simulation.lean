import Dalila.Lib.History

/-!
# Simulations

One system does what another allows if the other can match each of its steps, by as many steps
of its own as it takes. What a step has to show for that is what `see` picks of its label.
-/

namespace History

variable {σ Λ σ' Λ' O : Type*}

/-- What showed in a history, newest first. -/
def seen (see : Λ → Option O) (h : History σ Λ) : List O :=
  h.past.filterMap fun m => see m.label

@[simp] theorem seen_init (see : Λ → Option O) (s : σ) :
    (init s : History σ Λ).seen see = [] := rfl

@[simp] theorem seen_push (see : Λ → Option O) (h : History σ Λ) (l : Λ) (s : σ) :
    (h.push l s).seen see = (see l).toList ++ h.seen see := by
  unfold seen
  rw [past_push, List.filterMap_cons]
  cases see l <;> rfl

/-- What showed once stays shown. -/
theorem Extends.exists_seen {Step : σ → Λ → σ → Prop} {h h' : History σ Λ}
    (hext : Extends Step h h') (see : Λ → Option O) :
    ∃ more, h'.seen see = more ++ h.seen see := by
  induction hext with
  | refl => exact ⟨[], rfl⟩
  | @push h' l s hext _ ih =>
    obtain ⟨more, hmore⟩ := ih
    exact ⟨(see l).toList ++ more, by rw [seen_push, hmore, List.append_assoc]⟩

/-- `R` relates the states of a system to those of one that can match its steps. -/
structure Simulates (Step : σ → Λ → σ → Prop) (Init : σ → Prop) (see : Λ → Option O)
    (Step' : σ' → Λ' → σ' → Prop) (Init' : σ' → Prop) (see' : Λ' → Option O)
    (R : σ → σ' → Prop) : Prop where
  start : ∀ s, Init s → ∃ s', Init' s' ∧ R s s'
  step : ∀ {h : History σ Λ} {h' : History σ' Λ'} {l : Λ} {s : σ}, IsRun Step Init h →
    IsRun Step' Init' h' → R h.now h'.now → Step h.now l s →
    ∃ h'', Extends Step' h' h'' ∧ h''.seen see' = (see l).toList ++ h'.seen see' ∧ R s h''.now

variable {Step : σ → Λ → σ → Prop} {Init : σ → Prop} {see : Λ → Option O}
  {Step' : σ' → Λ' → σ' → Prop} {Init' : σ' → Prop} {see' : Λ' → Option O} {R : σ → σ' → Prop}

/-- Every run is matched by one that shows the same. -/
theorem Simulates.exists_run (hsim : Simulates Step Init see Step' Init' see' R)
    {h : History σ Λ} (hrun : IsRun Step Init h) :
    ∃ h', IsRun Step' Init' h' ∧ h'.seen see' = h.seen see ∧ R h.now h'.now := by
  refine hrun.induction (P := fun h => ∃ h', IsRun Step' Init' h' ∧ h'.seen see' = h.seen see ∧
    R h.now h'.now) ?_ ?_
  · intro s hs
    obtain ⟨s', hs', hR⟩ := hsim.start s hs
    exact ⟨init s', ⟨s', hs', .refl _⟩, rfl, hR⟩
  · intro h l s hrun ih hstep
    obtain ⟨h', hrun', hseen, hR⟩ := ih
    obtain ⟨h'', hext, hseen', hR'⟩ := hsim.step hrun hrun' hR hstep
    refine ⟨h'', hrun'.extends hext, ?_, hR'⟩
    rw [hseen', hseen, seen_push]

end History
