import Dalila.Lib.History
import Dalila.Lib.Program
import Mathlib.Data.Finsupp.Weight

/-!
# Accounts

Steps cost something and earn something. Everybody keeps an account, and may spend what is on it:
if nobody ever overdraws, all that was spent is covered by what was earned. `Affords` says this of
a program, which pays for its operations out of one account.
-/

universe u v

/-! ## Accounts -/

/-- What is on every account; nearly all of them are empty. -/
abbrev Ledger (ι : Type*) := ι →₀ ℕ

namespace Ledger

variable {ι : Type*}

/-- Setting one account to `n`. -/
theorem degree_update (a : Ledger ι) (i : ι) (n : ℕ) :
    (a.update i n).degree + a i = a.degree + n := by
  have hsum : ∀ b : Ledger ι, b.degree = b.sum fun _ m => m := fun _ => rfl
  have hupdate := Finsupp.sum_update_add a i n (fun _ m => m) (fun _ => rfl) fun _ _ _ => rfl
  rw [hsum, hsum]
  exact hupdate

@[simp] theorem update_same (a : Ledger ι) (i : ι) (n : ℕ) : a.update i n i = n := by
  classical rw [Finsupp.coe_update, Function.update_self]

theorem update_of_ne (a : Ledger ι) {i j : ι} (hne : j ≠ i) (n : ℕ) : a.update i n j = a j := by
  classical rw [Finsupp.coe_update, Function.update_of_ne hne]

end Ledger

namespace History

variable {σ : Type u} {Λ : Type v} {ι : Type*}

/-- What the steps come to. -/
def total (f : Λ → ℕ) (h : History σ Λ) : ℕ :=
  (h.past.map fun m => f m.label).sum

@[simp] theorem total_init (f : Λ → ℕ) (s : σ) : (init s : History σ Λ).total f = 0 := rfl

@[simp] theorem total_push (f : Λ → ℕ) (h : History σ Λ) (l : Λ) (s : σ) :
    (h.push l s).total f = f l + h.total f := by
  unfold total
  rw [past_push, List.map_cons, List.sum_cons]

variable {Step : σ → Λ → σ → Prop} {Init : σ → Prop}

/-- If every step is paid for out of the accounts and what it earns, everything is. -/
theorem IsRun.exists_ledger {P : σ → Ledger ι → Prop} {cost earns : Λ → ℕ} {h : History σ Λ}
    (hrun : IsRun Step Init h) (hinit : ∀ s, Init s → P s 0)
    (hstep : ∀ (h : History σ Λ) l s ledger, IsRun Step Init h → P h.now ledger → Step h.now l s →
      ∃ ledger', P s ledger' ∧ cost l + ledger'.degree ≤ earns l + ledger.degree) :
    ∃ ledger, P h.now ledger ∧ h.total cost + ledger.degree ≤ h.total earns := by
  refine hrun.induction (P := fun h => ∃ ledger, P h.now ledger ∧
    h.total cost + ledger.degree ≤ h.total earns) ?_ ?_
  · intro s hs
    refine ⟨0, hinit s hs, ?_⟩
    rw [total_init, total_init, map_zero]
    exact le_refl 0
  · intro h l s hrun ih hs
    obtain ⟨ledger, hP, hpaid⟩ := ih
    obtain ⟨ledger', hP', hpays⟩ := hstep h l s ledger hrun hP hs
    refine ⟨ledger', hP', ?_⟩
    rw [total_push, total_push]
    omega

end History

/-! ## What a program can afford -/

namespace Program

variable {Op : Type u} {Res : Op → Type v} {α β : Type v}

/-- What operations cost and earn, and what is known of their results. -/
structure Tariff (Op : Type u) (Res : Op → Type v) where
  price : ∀ o, Res o → ℕ
  earns : ∀ o, Res o → ℕ
  gives : ∀ o, Res o → Prop

/-- With `n` to spend the program pays for all its operations, and has `left` when it returns. -/
def Affords (T : Tariff Op Res) (left : α → ℕ) : Program Op Res α → ℕ → Prop
  | .ret a, n => left a ≤ n
  | .step o next, n => ∀ r, T.gives o r →
      T.price o r ≤ n ∧ Affords T left (next r) (n - T.price o r + T.earns o r)

section

variable {T : Tariff Op Res} {left : α → ℕ} {left' : β → ℕ} {n n' : ℕ}

theorem Affords.mono {p : Program Op Res α} (h : Affords T left p n) (hn : n ≤ n') :
    Affords T left p n' := by
  induction p generalizing n n' with
  | ret a => exact le_trans h hn
  | step o next ih =>
    intro r hr
    obtain ⟨hprice, hnext⟩ := h r hr
    exact ⟨hprice.trans hn, ih r hnext (by omega)⟩

theorem Affords.pure {a : α} (h : left a ≤ n) :
    Affords T left (Pure.pure a : Program Op Res α) n := h

theorem Affords.imp {less : α → ℕ} {p : Program Op Res α} (h : Affords T left p n)
    (hless : ∀ a, less a ≤ left a) : Affords T less p n := by
  induction p generalizing n with
  | ret a => exact (hless a).trans h
  | step o next ih =>
    intro r hr
    obtain ⟨hprice, hnext⟩ := h r hr
    exact ⟨hprice, ih r hnext⟩

/-- Sequencing. -/
theorem Affords.bind {p : Program Op Res α} {f : α → Program Op Res β} (hp : Affords T left p n)
    (hf : ∀ a, Affords T left' (f a) (left a)) : Affords T left' (p >>= f) n := by
  show Affords T left' (p.bind f) n
  induction p generalizing n with
  | ret a => exact (hf a).mono hp
  | step o next ih =>
    intro r hr
    obtain ⟨hprice, hnext⟩ := hp r hr
    exact ⟨hprice, ih r hnext⟩

/-- Sequencing after one operation. -/
theorem Affords.call_bind {o : Op} {f : Res o → Program Op Res β}
    (hf : ∀ r, T.gives o r →
      T.price o r ≤ n ∧ Affords T left' (f r) (n - T.price o r + T.earns o r)) :
    Affords T left' (Program.call o >>= f) n := hf

/-- Sequencing after one that costs at most `c`. -/
theorem Affords.pay_bind {o : Op} {f : Res o → Program Op Res β} {c : ℕ}
    (ho : ∀ r, T.price o r ≤ c) (hf : ∀ r, T.gives o r → Affords T left' (f r) n) :
    Affords T left' (Program.call o >>= f) (n + c) := by
  intro r hr
  have hprice := ho r
  exact ⟨by omega, (hf r hr).mono (by omega)⟩

/-- Sequencing after one that costs nothing. -/
theorem Affords.free_bind {o : Op} {f : Res o → Program Op Res β} (ho : ∀ r, T.price o r = 0)
    (hf : ∀ r, T.gives o r → Affords T left' (f r) n) :
    Affords T left' (Program.call o >>= f) n :=
  Affords.pay_bind (c := 0) (fun r => (ho r).le) hf

/-- A program whose operations cost nothing keeps what it has. -/
theorem AtWaits.affords {waits : Op → Prop} {p : Program Op Res α}
    (hp : AtWaits waits (fun _ => False) p) (hfree : ∀ o, ¬ waits o → ∀ r, T.price o r = 0)
    (n : ℕ) : Affords T (fun _ => n) p n := by
  induction p with
  | ret a => exact le_refl n
  | step o next ih =>
    intro r _
    have hprice := hfree o hp.1 r
    refine ⟨hprice.symm ▸ Nat.zero_le n, (ih r (hp.2 r)).mono ?_⟩
    rw [hprice]
    omega

/-- A program that never calls `waits` and never calls `waits'` calls neither. -/
theorem AtWaits.or {waits waits' : Op → Prop} {p : Program Op Res α}
    (hp : AtWaits waits (fun _ => False) p) (hp' : AtWaits waits' (fun _ => False) p) :
    AtWaits (fun o => waits o ∨ waits' o) (fun _ => False) p := by
  induction p with
  | ret a => trivial
  | step o next ih => exact ⟨fun ho => ho.elim hp.1 hp'.1, fun r => ih r (hp.2 r) (hp'.2 r)⟩

end

end Program
