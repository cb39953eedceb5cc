import Mathlib.Data.Finset.Card
import Mathlib.Data.List.Basic
import Mathlib.Logic.Relation
import Mathlib.Order.WellFounded
import Mathlib.Tactic.Common

/-!
# Histories of labelled transition systems

A history is a state together with the steps that led to it. A property of histories that
no step destroys is *stable*; what was known once stays known.
-/

universe u v

/-- A step that was taken: the state it was taken in, and what it was. -/
structure Moment (σ : Type u) (Λ : Type v) where
  state : σ
  label : Λ

/-- Newest moment first. -/
structure History (σ : Type u) (Λ : Type v) where
  past : List (Moment σ Λ)
  now : σ

namespace History

variable {σ : Type u} {Λ : Type v}

/-- Nothing has happened yet. -/
def init (s : σ) : History σ Λ where
  past := []
  now := s

/-- One more step. -/
def push (h : History σ Λ) (l : Λ) (s : σ) : History σ Λ where
  past := ⟨h.now, l⟩ :: h.past
  now := s

@[simp] theorem past_push (h : History σ Λ) (l : Λ) (s : σ) :
    (h.push l s).past = ⟨h.now, l⟩ :: h.past := rfl

@[simp] theorem now_push (h : History σ Λ) (l : Λ) (s : σ) : (h.push l s).now = s := rfl

/-- Every state the history went through, the present one included. -/
def states (h : History σ Λ) : List σ :=
  h.now :: h.past.map Moment.state

theorem now_mem_states (h : History σ Λ) : h.now ∈ h.states := by
  simp [states]

theorem mem_states_push {h : History σ Λ} {l : Λ} {s t : σ} :
    t ∈ (h.push l s).states ↔ t = s ∨ t ∈ h.states := by
  simp [states]

variable (Step : σ → Λ → σ → Prop)

/-- `h'` is `h` after some more steps. -/
inductive Extends : History σ Λ → History σ Λ → Prop where
  | refl (h) : Extends h h
  | push {h h' : History σ Λ} {l : Λ} {s : σ} (hext : Extends h h') (hstep : Step h'.now l s) :
      Extends h (h'.push l s)

/-- A run from an initial state. -/
def IsRun (Init : σ → Prop) (h : History σ Λ) : Prop :=
  ∃ s, Init s ∧ Extends Step (init s) h

variable {Step}

theorem Extends.single {h : History σ Λ} {l : Λ} {s : σ} (hstep : Step h.now l s) :
    Extends Step h (h.push l s) := .push (.refl h) hstep

theorem Extends.trans {a b c : History σ Λ} (hab : Extends Step a b) (hbc : Extends Step b c) :
    Extends Step a c := by
  induction hbc with
  | refl => exact hab
  | push _ hstep ih => exact .push ih hstep

/-- The moments of a history are among those of every later one. -/
theorem Extends.mem_past {h h' : History σ Λ} (hext : Extends Step h h') {m : Moment σ Λ}
    (hm : m ∈ h.past) : m ∈ h'.past := by
  induction hext with
  | refl => exact hm
  | push _ _ ih => exact List.mem_cons_of_mem _ ih

theorem Extends.length_le {h h' : History σ Λ} (hext : Extends Step h h') :
    h.past.length ≤ h'.past.length := by
  induction hext with
  | refl => exact le_refl _
  | push _ _ ih => exact ih.trans (Nat.le_succ _)

theorem Extends.mem_states {h h' : History σ Λ} (hext : Extends Step h h') {s : σ}
    (hs : s ∈ h.states) : s ∈ h'.states := by
  induction hext with
  | refl => exact hs
  | push _ _ ih => exact mem_states_push.mpr (.inr ih)

/-- A history knows the one before it. -/
theorem eq_of_push_eq {h h' : History σ Λ} {l l' : Λ} {s s' : σ}
    (heq : h.push l s = h'.push l' s') : h = h' := by
  cases h
  cases h'
  simp only [push, mk.injEq, List.cons.injEq, Moment.mk.injEq] at heq
  rw [heq.1.2, heq.1.1.1]

/-- A history knows the step it ends with. -/
theorem label_eq_of_push_eq {h h' : History σ Λ} {l l' : Λ} {s s' : σ}
    (heq : h.push l s = h'.push l' s') : l = l' := by
  simp only [push, mk.injEq, List.cons.injEq, Moment.mk.injEq] at heq
  exact heq.1.1.2

/-- Of two points one history went through, one is later. -/
theorem Extends.total {a b h : History σ Λ} (ha : Extends Step a h) (hb : Extends Step b h) :
    Extends Step a b ∨ Extends Step b a := by
  induction ha with
  | refl => exact .inr hb
  | @push h' l s hext hstep ih =>
    generalize hlast : h'.push l s = last at hb
    cases hb with
    | refl =>
      rw [← hlast]
      exact .inl (hext.push hstep)
    | push hext' _ =>
      rw [eq_of_push_eq hlast] at ih
      exact ih hext'

/-- Fewer steps make fewer histories. -/
theorem Extends.mono {Step' : σ → Λ → σ → Prop} (hle : ∀ s l t, Step s l t → Step' s l t)
    {h h' : History σ Λ} (hext : Extends Step h h') : Extends Step' h h' := by
  induction hext with
  | refl => exact .refl _
  | push _ hstep ih => exact ih.push (hle _ _ _ hstep)

/-- On the way to `h`, the step after `h₁` was `l`. -/
def Took (Step : σ → Λ → σ → Prop) (l : Λ) (h₁ h : History σ Λ) : Prop :=
  ∃ s, Step h₁.now l s ∧ Extends Step (h₁.push l s) h

theorem Took.later {l : Λ} {h₁ h h' : History σ Λ} (hl : Took Step l h₁ h)
    (hext : Extends Step h h') : Took Step l h₁ h' := by
  obtain ⟨s, hstep, hafter⟩ := hl
  exact ⟨s, hstep, hafter.trans hext⟩

theorem Took.of_step {l : Λ} {h : History σ Λ} {s : σ} (hstep : Step h.now l s) :
    Took Step l h (h.push l s) := ⟨s, hstep, .refl _⟩

/-- A step comes after what led to it. -/
theorem Took.before {l : Λ} {h₁ h : History σ Λ} (hl : Took Step l h₁ h) :
    Extends Step h₁ h := by
  obtain ⟨s, hstep, hafter⟩ := hl
  exact (Extends.single hstep).trans hafter

/-- What was taken is in the history. -/
theorem Took.mem_past {l : Λ} {h₁ h : History σ Λ} (hl : Took Step l h₁ h) :
    ⟨h₁.now, l⟩ ∈ h.past := by
  obtain ⟨s, _, hafter⟩ := hl
  exact hafter.mem_past (by simp)

theorem Took.length_lt {l : Λ} {h₁ h : History σ Λ} (hl : Took Step l h₁ h) :
    h₁.past.length < h.past.length := by
  obtain ⟨s, _, hafter⟩ := hl
  exact hafter.length_le

/-- What was taken until a step was that step, or was taken before. -/
theorem Took.of_push {l l' : Λ} {h₁ h : History σ Λ} {s : σ}
    (hl : Took Step l h₁ (h.push l' s)) : h₁ = h ∧ l = l' ∨ Took Step l h₁ h := by
  obtain ⟨s₁, hstep, hafter⟩ := hl
  generalize hlast : h.push l' s = last at hafter
  cases hafter with
  | refl => exact .inl ⟨(eq_of_push_eq hlast).symm, (label_eq_of_push_eq hlast).symm⟩
  | push hext _ =>
    rw [← eq_of_push_eq hlast] at hext
    exact .inr ⟨s₁, hstep, hext⟩

/-- Of two steps that were taken, one was taken first. -/
theorem Took.total {l l' : Λ} {h₁ h₂ h : History σ Λ} (hl : Took Step l h₁ h)
    (hl' : Took Step l' h₂ h) :
    h₁ = h₂ ∧ l = l' ∨ Took Step l h₁ h₂ ∨ Took Step l' h₂ h₁ := by
  obtain ⟨s, hstep, hafter⟩ := hl
  obtain ⟨s', hstep', hafter'⟩ := hl'
  rcases hafter.total hafter' with hle | hle
  · rcases Took.of_push ⟨s, hstep, hle⟩ with hsame | hfirst
    · exact .inl hsame
    · exact .inr (.inl hfirst)
  · rcases Took.of_push ⟨s', hstep', hle⟩ with ⟨hsame, hlabel⟩ | hfirst
    · exact .inl ⟨hsame.symm, hlabel.symm⟩
    · exact .inr (.inr hfirst)

/-- What was taken after `a` on the way to `h` is one of the steps that lead there. -/
theorem Took.allowed {ok : Λ → Prop} {l : Λ} {a h₁ h : History σ Λ} (hl : Took Step l h₁ h)
    (hext : Extends (fun s l t => Step s l t ∧ ok l) a h)
    (hlen : a.past.length ≤ h₁.past.length) : ok l := by
  induction hext with
  | refl =>
    have hlt := hl.length_lt
    omega
  | push _ hstep ih =>
    rcases hl.of_push with ⟨_, hlabel⟩ | hbefore
    · rw [hlabel]
      exact hstep.2
    · exact ih hbefore

/-- Steps of a history of `ok` steps are `ok`. -/
theorem Extends.of_past {ok : Λ → Prop} {h h' : History σ Λ} (hext : Extends Step h h')
    (hpast : ∀ m ∈ h'.past, ok m.label) : Extends (fun s l t => Step s l t ∧ ok l) h h' := by
  induction hext with
  | refl => exact .refl _
  | push _ hstep ih =>
    refine (ih fun m hm => hpast m (List.mem_cons_of_mem _ hm)).push ⟨hstep, ?_⟩
    exact hpast _ List.mem_cons_self

/-- A history of `ok` steps from where all were `ok` has no others. -/
theorem Extends.forall_past {ok : Λ → Prop} {h h' : History σ Λ}
    (hext : Extends (fun s l t => Step s l t ∧ ok l) h h') (hpast : ∀ m ∈ h.past, ok m.label) :
    ∀ m ∈ h'.past, ok m.label := by
  induction hext with
  | refl => exact hpast
  | push _ hstep ih =>
    intro m hm
    rcases List.mem_cons.mp hm with rfl | hm
    · exact hstep.2
    · exact ih m hm

theorem Extends.eq_of_length_le {h h' : History σ Λ} (hext : Extends Step h h')
    (hlen : h'.past.length ≤ h.past.length) : h = h' := by
  cases hext with
  | refl => rfl
  | push hext' _ =>
    have hle := hext'.length_le
    rw [past_push, List.length_cons] at hlen
    omega

/-- What was taken before the history was as long as `b` was taken on the way to `b`. -/
theorem Took.of_length_lt {l : Λ} {h₁ b h : History σ Λ} (hl : Took Step l h₁ h)
    (hb : Extends Step b h) (hlen : h₁.past.length < b.past.length) : Took Step l h₁ b := by
  obtain ⟨s, hstep, hafter⟩ := hl
  rcases hafter.total hb with hle | hle
  · exact ⟨s, hstep, hle⟩
  · have heq := hle.eq_of_length_le (by rw [past_push, List.length_cons]; exact hlen)
    rw [heq]
    exact .of_step hstep

/-- What was taken on the way to `h` was taken on the way to `a`, or is one of the steps after it. -/
theorem Took.of_extends {ok : Λ → Prop} {l : Λ} {a h₁ h : History σ Λ} (hl : Took Step l h₁ h)
    (ha : Extends Step a h) (hext : Extends (fun s l t => Step s l t ∧ ok l) a h) :
    ok l ∨ Took Step l h₁ a := by
  rcases Nat.lt_or_ge h₁.past.length a.past.length with hlen | hlen
  · exact .inr (hl.of_length_lt ha hlen)
  · exact .inl (hl.allowed hext hlen)

/-- The last part of a history of `ok` steps. -/
theorem Extends.suffix {ok : Λ → Prop} {a b h : History σ Λ}
    (hext : Extends (fun s l t => Step s l t ∧ ok l) a h) (hb : Extends Step b h)
    (hlen : a.past.length ≤ b.past.length) :
    Extends (fun s l t => Step s l t ∧ ok l) b h := by
  induction hext with
  | refl =>
    rw [hb.eq_of_length_le hlen]
    exact .refl _
  | @push h l s hext hstep ih =>
    generalize hlast : h.push l s = last at hb
    cases hb with
    | refl =>
      exact .refl _
    | push hb' _ =>
      rw [← eq_of_push_eq hlast] at hb'
      rw [← hlast]
      exact (ih hb').push hstep

/-- The first part of a history of `ok` steps. -/
theorem Extends.initial {ok : Λ → Prop} {a b h : History σ Λ}
    (hext : Extends (fun s l t => Step s l t ∧ ok l) a h) (ha : Extends Step a b)
    (hb : Extends Step b h) : Extends (fun s l t => Step s l t ∧ ok l) a b := by
  induction hext with
  | refl =>
    rw [ha.eq_of_length_le hb.length_le]
    exact .refl _
  | @push h l s hext hstep ih =>
    generalize hlast : h.push l s = last at hb
    cases hb with
    | refl =>
      rw [← hlast]
      exact hext.push hstep
    | push hb' _ =>
      rw [← eq_of_push_eq hlast] at hb'
      exact ih hb'

/-- How many of the steps were among `p`. -/
def count (p : Λ → Bool) (h : History σ Λ) : ℕ :=
  h.past.countP fun m => p m.label

@[simp] theorem count_init (p : Λ → Bool) (s : σ) : (init s : History σ Λ).count p = 0 := rfl

/-- One step is counted or not. -/
theorem count_push (p : Λ → Bool) (h : History σ Λ) (l : Λ) (s : σ) :
    (h.push l s).count p = h.count p + if p l then 1 else 0 := by
  unfold count
  rw [past_push, List.countP_cons]

/-- Steps among `p` that can be told apart by a number are at least as many as the numbers. -/
theorem le_count {p : Λ → Bool} {h : History σ Λ} {n : ℕ} (number : Moment σ Λ → ℕ)
    (hall : ∀ i < n, ∃ m ∈ h.past, p m.label = true ∧ number m = i) : n ≤ h.count p := by
  have hsub : Finset.range n ⊆ ((h.past.filter fun m => p m.label).map number).toFinset := by
    intro i hi
    obtain ⟨m, hm, hp, rfl⟩ := hall i (Finset.mem_range.mp hi)
    exact List.mem_toFinset.mpr (List.mem_map_of_mem (List.mem_filter.mpr ⟨hm, hp⟩))
  calc n = (Finset.range n).card := (Finset.card_range n).symm
    _ ≤ _ := Finset.card_le_card hsub
    _ ≤ _ := List.toFinset_card_le _
    _ = h.count p := by rw [List.length_map, count, List.countP_eq_length_filter]

variable {Init : σ → Prop}

theorem IsRun.extends {h h' : History σ Λ} (hrun : IsRun Step Init h)
    (hext : Extends Step h h') : IsRun Step Init h' := by
  obtain ⟨s, hs, hs'⟩ := hrun
  exact ⟨s, hs, hs'.trans hext⟩

theorem eq_of_extends_init {h : History σ Λ} {s : σ} (hext : Extends Step h (init s)) :
    h = init s := by
  generalize hlast : (init s : History σ Λ) = last at hext
  cases hext with
  | refl => rfl
  | push =>
    have hpast := congrArg History.past hlast
    exact absurd hpast (by simp [init])

/-- Every point a run went through is a run. -/
theorem IsRun.of_extends {h h' : History σ Λ} (hrun : IsRun Step Init h')
    (hext : Extends Step h h') : IsRun Step Init h := by
  obtain ⟨s, hs, hfrom⟩ := hrun
  rcases hfrom.total hext with hle | hle
  · exact ⟨s, hs, hle⟩
  · rw [eq_of_extends_init hle]
    exact ⟨s, hs, .refl _⟩

/-- What holds at the start and is kept by every step of a run holds of every run. -/
theorem IsRun.induction {P : History σ Λ → Prop} {h : History σ Λ} (hrun : IsRun Step Init h)
    (hinit : ∀ s, Init s → P (init s))
    (hstep : ∀ h l s, IsRun Step Init h → P h → Step h.now l s → P (h.push l s)) : P h := by
  obtain ⟨s, hs, hext⟩ := hrun
  induction hext with
  | refl => exact hinit s hs
  | push hext hs' ih => exact hstep _ _ _ ⟨s, hs, hext⟩ ih hs'

/-- What is in a history was taken. -/
theorem IsRun.exists_took {h : History σ Λ} (hrun : IsRun Step Init h) {m : Moment σ Λ}
    (hm : m ∈ h.past) : ∃ h₁, Took Step m.label h₁ h := by
  have hall : ∀ m ∈ h.past, ∃ h₁, Took Step m.label h₁ h := by
    refine IsRun.induction (P := fun h => ∀ m ∈ h.past, ∃ h₁, Took Step m.label h₁ h) hrun ?_ ?_
    · exact fun s _ m hm => absurd hm List.not_mem_nil
    · intro h l s _ ih hstep m hm
      rcases List.mem_cons.mp hm with rfl | hm
      · exact ⟨h, .of_step hstep⟩
      · obtain ⟨h₁, htook⟩ := ih m hm
        exact ⟨h₁, htook.later (.single hstep)⟩
  exact hall m hm

/-- A present state is the start of a run, or what some earlier run stepped to. -/
theorem mem_states_of_run {h : History σ Λ} (hrun : IsRun Step Init h) {t : σ}
    (ht : t ∈ h.states) : ∃ h₀ : History σ Λ, IsRun Step Init h₀ ∧ h₀.now = t ∧
      Extends Step h₀ h := by
  have hall : ∀ t ∈ h.states, ∃ h₀ : History σ Λ, IsRun Step Init h₀ ∧ h₀.now = t ∧
      Extends Step h₀ h := by
    refine IsRun.induction (P := fun h => ∀ t ∈ h.states, ∃ h₀ : History σ Λ,
      IsRun Step Init h₀ ∧ h₀.now = t ∧ Extends Step h₀ h) hrun ?_ ?_
    · intro s hs t ht
      obtain rfl : t = s := by simpa [states, init] using ht
      exact ⟨init t, ⟨t, hs, .refl _⟩, rfl, .refl _⟩
    · intro h l s hrun ih hstep t ht
      rcases mem_states_push.mp ht with rfl | ht
      · exact ⟨_, hrun.extends (.single hstep), rfl, .refl _⟩
      · obtain ⟨h₀, hrun₀, hnow, hext⟩ := ih t ht
        exact ⟨h₀, hrun₀, hnow, hext.push hstep⟩
  exact hall t ht

/-! ## Where nothing grows any more -/

end History
