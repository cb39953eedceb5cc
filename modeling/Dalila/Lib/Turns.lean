import Mathlib.Algebra.Order.BigOperators.Group.List
import Mathlib.Algebra.Order.Floor.Div
import Mathlib.Data.List.Nodup

/-!
# Turns for those with the most left

Everything in a list has a number of turns left. A round gives one to at most `k` of them, to
those with the most left, and drops whoever has had the last one. No other way of giving out the
turns takes fewer rounds.
-/

universe u v

/-- What a turn makes of its owner, and how many are left. -/
structure Turns (α : Type u) (β : Type v) where
  name : α → β
  left : α → ℕ
  spend : α → α
  name_spend : ∀ a, name (spend a) = name a
  left_spend : ∀ a, left (spend a) = left a - 1

namespace Turns

variable {α : Type u} {β : Type v} (t : Turns α β) (k : ℕ)

/-- Most turns left first, and whoever was first among equals. -/
def mostFirst (l : List α) : List α :=
  l.mergeSort fun a b => t.left a ≥ t.left b

/-- Who gets a turn. -/
def batch (l : List α) : List α :=
  List.take k (t.mostFirst l)

/-- Who doesn't. -/
def waiting (l : List α) : List α :=
  List.drop k (t.mostFirst l)

/-- What a round leaves. -/
def rest (l : List α) : List α :=
  ((t.batch k l).map t.spend ++ t.waiting k l).filter fun a => t.left a > 0

/-- Most turns that anything has left. -/
def most (l : List α) : ℕ := (l.map t.left).foldr max 0

/-- All turns that are left. -/
def total (l : List α) : ℕ := (l.map t.left).sum

/-- How many rounds it takes. -/
def rounds (l : List α) : ℕ := max (t.most l) (t.total l ⌈/⌉ k)

/-- Everything in the list has a turn left. -/
def Live (l : List α) : Prop := ∀ a ∈ l, 0 < t.left a

/-- The turns left to those `f` picks. -/
def owed (f : α → Bool) (l : List α) : ℕ :=
  (l.map fun a => if f a then t.left a else 0).sum

variable {t k} {l : List α} {f : α → Bool}

/-! ## One round -/

theorem mostFirst_perm (l : List α) : (t.mostFirst l).Perm l := List.mergeSort_perm l _

/-- Everything is in the batch or waits. -/
theorem batch_append_waiting (l : List α) : (t.batch k l ++ t.waiting k l).Perm l := by
  unfold batch waiting
  rw [List.take_append_drop]
  exact mostFirst_perm l

theorem mem_of_mem_batch {a : α} (ha : a ∈ t.batch k l) : a ∈ l :=
  (batch_append_waiting l).mem_iff.mp (List.mem_append_left _ ha)

theorem mem_batch_or_mem_waiting {a : α} (ha : a ∈ l) : a ∈ t.batch k l ∨ a ∈ t.waiting k l :=
  List.mem_append.mp ((batch_append_waiting l).mem_iff.mpr ha)

theorem length_batch (l : List α) : (t.batch k l).length = min k l.length := by
  unfold batch
  rw [List.length_take, (mostFirst_perm l).length_eq]

/-- Nobody who waits has more turns left than one who doesn't. -/
theorem left_le_of_waiting {a b : α} (ha : a ∈ t.batch k l) (hb : b ∈ t.waiting k l) :
    t.left b ≤ t.left a := by
  have hsorted : (t.mostFirst l).Pairwise fun a b => t.left a ≥ t.left b := by
    have hpairs : (t.mostFirst l).Pairwise fun a b => decide (t.left a ≥ t.left b) = true :=
      List.pairwise_mergeSort (fun a b c hab hbc => by simp only [decide_eq_true_eq] at *; omega)
      (fun a b => by simp only [Bool.or_eq_true, decide_eq_true_eq]; omega) l
    exact hpairs.imp fun hab => of_decide_eq_true hab
  rw [← List.take_append_drop k (t.mostFirst l), List.pairwise_append] at hsorted
  exact hsorted.2.2 a ha b hb

theorem live_rest (l : List α) : t.Live (t.rest k l) := by
  intro a ha
  have hleft := (List.mem_filter.mp ha).2
  simpa using hleft

theorem mem_rest {a : α} :
    a ∈ t.rest k l ↔ ((∃ b ∈ t.batch k l, t.spend b = a) ∨ a ∈ t.waiting k l) ∧ 0 < t.left a := by
  unfold rest
  rw [List.mem_filter, List.mem_append, List.mem_map, decide_eq_true_eq]

theorem nodup_batch {γ : Type*} {g : α → γ} (hnodup : (l.map g).Nodup) :
    ((t.batch k l).map g).Nodup := by
  have hall := ((batch_append_waiting (t := t) (k := k) l).map g).nodup_iff.mpr hnodup
  rw [List.map_append] at hall
  exact hall.of_append_left

theorem nodup_rest {γ : Type*} {g : α → γ} (hg : ∀ a, g (t.spend a) = g a)
    (hnodup : (l.map g).Nodup) : ((t.rest k l).map g).Nodup := by
  have hall := ((batch_append_waiting (t := t) (k := k) l).map g).nodup_iff.mpr hnodup
  have hsame : ((t.batch k l).map t.spend ++ t.waiting k l).map g =
      (t.batch k l ++ t.waiting k l).map g := by
    rw [List.map_append, List.map_append, List.map_map]
    congr 2
    exact funext hg
  rw [← hsame] at hall
  exact hall.sublist (List.filter_sublist.map g)

/-! ## What is owed -/

theorem owed_append (l l' : List α) : t.owed f (l ++ l') = t.owed f l + t.owed f l' := by
  simp [owed]

theorem owed_perm {l' : List α} (hperm : l.Perm l') : t.owed f l = t.owed f l' := by
  unfold owed
  exact (hperm.map _).sum_eq

/-- Dropping some takes nothing from the others. -/
theorem owed_filter_le (keep : α → Bool) (l : List α) :
    t.owed f (l.filter keep) ≤ t.owed f l := by
  unfold owed
  exact (List.filter_sublist.map _).sum_le_sum fun _ _ => Nat.zero_le _

/-- Whoever has no turn left is owed nothing. -/
theorem owed_filter (l : List α) : t.owed f (l.filter fun a => t.left a > 0) = t.owed f l := by
  induction l with
  | nil => rfl
  | cons a l ih =>
    unfold owed at ih ⊢
    by_cases ha : t.left a > 0
    · rw [List.filter_cons_of_pos (by simpa using ha), List.map_cons, List.sum_cons, ih]
      rw [List.map_cons, List.sum_cons]
    · have hzero : t.left a = 0 := by omega
      rw [List.filter_cons_of_neg (by simpa using ha), ih, List.map_cons, List.sum_cons, hzero]
      simp

/-- Every turn that is taken is paid for. -/
theorem owed_spend (hf : ∀ a, f (t.spend a) = f a) (hlive : t.Live l) :
    t.owed f (l.map t.spend) + l.countP f = t.owed f l := by
  induction l with
  | nil => rfl
  | cons a l ih =>
    have hleft : 0 < t.left a := hlive a List.mem_cons_self
    have hrest := ih fun b hb => hlive b (List.mem_cons_of_mem _ hb)
    unfold owed at hrest ⊢
    simp only [List.map_cons, List.sum_cons, List.countP_cons, hf, t.left_spend]
    split_ifs <;> omega

/-- A round pays for the turns it gives. -/
theorem owed_rest (hf : ∀ a, f (t.spend a) = f a) (hlive : t.Live l) :
    t.owed f (t.rest k l) + (t.batch k l).countP f = t.owed f l := by
  have hspent : _ = t.owed f (t.batch k l) :=
    owed_spend hf fun a ha => hlive a (mem_of_mem_batch ha)
  have hsplit := owed_perm (t := t) (f := f) (batch_append_waiting (t := t) (k := k) l)
  rw [owed_append] at hsplit
  unfold rest
  rw [owed_filter, owed_append]
  omega

theorem owed_true (l : List α) : t.owed (fun _ => true) l = t.total l := by
  simp [owed, total]

/-- A round spends one turn of everybody in the batch. -/
theorem total_rest (hlive : t.Live l) : t.total (t.rest k l) + min k l.length = t.total l := by
  have hpaid := owed_rest (k := k) (f := fun _ => true) (fun _ => rfl) hlive
  rw [owed_true, owed_true, List.countP_true, length_batch] at hpaid
  exact hpaid

theorem le_total {a : α} (ha : a ∈ l) : t.left a ≤ t.total l :=
  List.single_le_sum (by simp) _ (List.mem_map_of_mem ha)

/-- What one name is owed. -/
theorem owed_of_mem [DecidableEq β] (hnodup : (l.map t.name).Nodup) {a : α} (ha : a ∈ l) :
    t.owed (fun b => t.name b = t.name a) l = t.left a := by
  induction l with
  | nil => exact absurd ha List.not_mem_nil
  | cons b l ih =>
    rw [List.map_cons, List.nodup_cons] at hnodup
    unfold owed at ih ⊢
    rw [List.map_cons, List.sum_cons]
    rcases List.mem_cons.mp ha with rfl | ha
    · have hother : (l.map fun b => if decide (t.name b = t.name a) = true then t.left b else 0).sum
          = 0 := by
        rw [List.sum_eq_zero_iff]
        intro n hn
        obtain ⟨b, hb, rfl⟩ := List.mem_map.mp hn
        have hne : t.name b ≠ t.name a := fun heq => hnodup.1 (heq ▸ List.mem_map_of_mem hb)
        simp [hne]
      rw [hother]
      simp
    · have hne : t.name b ≠ t.name a := fun heq => hnodup.1 (heq ▸ List.mem_map_of_mem ha)
      rw [ih hnodup.2 ha]
      simp [hne]

/-! ## How many rounds -/

theorem most_le_iff {n : ℕ} : t.most l ≤ n ↔ ∀ a ∈ l, t.left a ≤ n := by
  unfold most
  induction l with
  | nil => simp
  | cons a l ih => simp [ih]

/-- The two reasons to take longer: something has many turns left, or there are many in all. -/
theorem rounds_le_iff (hk : 0 < k) {n : ℕ} :
    t.rounds k l ≤ n ↔ (∀ a ∈ l, t.left a ≤ n) ∧ t.total l ≤ k * n := by
  unfold rounds
  rw [max_le_iff, most_le_iff, ceilDiv_le_iff_le_mul hk]

/-- A round is one round less to go. -/
theorem rounds_rest_le_iff (hk : 0 < k) (hlive : t.Live l) {n : ℕ} :
    t.rounds k (t.rest k l) ≤ n ↔ t.rounds k l ≤ n + 1 := by
  have htotal := total_rest (k := k) hlive
  rw [rounds_le_iff hk, rounds_le_iff hk]
  have hmul : k * (n + 1) = k * n + k := Nat.mul_succ k n
  constructor
  · rintro ⟨hleft, hsum⟩
    have hbound : ∀ a ∈ l, t.left a ≤ n + 1 := by
      intro a ha
      have hlefta := hlive a ha
      rcases mem_batch_or_mem_waiting (t := t) (k := k) ha with hbatch | hwait
      · by_cases hone : t.left a = 1
        · omega
        · have hspent := hleft (t.spend a) (mem_rest.mpr ⟨.inl ⟨a, hbatch, rfl⟩, by
            rw [t.left_spend]; omega⟩)
          rw [t.left_spend] at hspent
          omega
      · have hwaited := hleft a (mem_rest.mpr ⟨.inr hwait, hlefta⟩)
        omega
    refine ⟨hbound, ?_⟩
    have hmin := min_le_left k l.length
    omega
  · rintro ⟨hleft, hsum⟩
    constructor
    · intro a ha
      rcases mem_rest.mp ha with ⟨⟨b, hbatch, rfl⟩ | hwait, _⟩
      · have hb := hleft b (mem_of_mem_batch hbatch)
        rw [t.left_spend]
        omega
      · -- or it and a full batch before it would come to more than there is
        by_contra hlt
        have hmore : ∀ n' ∈ (t.batch k l).map t.left, n + 1 ≤ n' := by
          intro n' hn'
          obtain ⟨b, hb, rfl⟩ := List.mem_map.mp hn'
          have hle := left_le_of_waiting hb hwait
          omega
        have hlong : k < l.length := by
          by_contra hshort
          have hnil : t.waiting k l = [] := by
            apply List.drop_of_length_le
            rw [(mostFirst_perm l).length_eq]
            omega
          rw [hnil] at hwait
          exact absurd hwait List.not_mem_nil
        have hbatch := List.card_nsmul_le_sum _ (n + 1) hmore
        rw [List.length_map, length_batch, min_eq_left hlong.le, smul_eq_mul] at hbatch
        have hrest : t.left a ≤ t.total (t.waiting k l) := le_total hwait
        have hsplit : t.total (t.batch k l) + t.total (t.waiting k l) = t.total l := by
          have hsame := owed_perm (t := t) (f := fun _ => true)
            (batch_append_waiting (t := t) (k := k) l)
          rw [owed_append, owed_true, owed_true, owed_true] at hsame
          exact hsame
        have hbatch : k * (n + 1) ≤ t.total (t.batch k l) := hbatch
        omega
    · by_cases hlong : k ≤ l.length
      · rw [min_eq_left hlong] at htotal
        omega
      · -- everybody gets a turn
        have hall := List.sum_le_card_nsmul (l.map t.left) (n + 1) (by
          intro n' hn'
          obtain ⟨b, hb, rfl⟩ := List.mem_map.mp hn'
          exact hleft b hb)
        rw [List.length_map, smul_eq_mul] at hall
        have hall : t.total l ≤ l.length * (n + 1) := hall
        have hshort : l.length * n ≤ k * n := Nat.mul_le_mul_right n (by omega)
        have hsucc : l.length * (n + 1) = l.length * n + l.length := Nat.mul_succ _ n
        rw [min_eq_right (by omega)] at htotal
        omega

theorem rounds_eq_zero_iff (hk : 0 < k) (hlive : t.Live l) : t.rounds k l ≤ 0 ↔ l = [] := by
  rw [rounds_le_iff hk]
  constructor
  · rintro ⟨hleft, _⟩
    apply List.eq_nil_iff_forall_not_mem.mpr
    intro a ha
    have hpos := hlive a ha
    have hzero := hleft a ha
    omega
  · rintro rfl
    simp [total]

/-! ## Round after round -/

variable (t k) in
/-- What is left after some rounds. -/
def after : ℕ → List α → List α
  | 0, l => l
  | n + 1, l => after n (t.rest k l)

variable (t k) in
/-- What the rounds gave out. -/
def batches : ℕ → List α → List (List α)
  | 0, _ => []
  | n + 1, l => t.batch k l :: batches n (t.rest k l)

/-- The last turn is given in the last of the rounds, not before. -/
theorem after_eq_nil_iff (hk : 0 < k) (hlive : t.Live l) {n : ℕ} :
    t.after k n l = [] ↔ t.rounds k l ≤ n := by
  induction n generalizing l with
  | zero => exact (rounds_eq_zero_iff hk hlive).symm
  | succ n ih =>
    show t.after k n (t.rest k l) = [] ↔ _
    rw [ih (live_rest l), rounds_rest_le_iff hk hlive]

/-- What is not handed out yet is still owed. -/
theorem owed_after (hf : ∀ a, f (t.spend a) = f a) (hlive : t.Live l) (n : ℕ) :
    t.owed f (t.after k n l) + ((t.batches k n l).map fun b => b.countP f).sum = t.owed f l := by
  induction n generalizing l with
  | zero => simp [after, batches]
  | succ n ih =>
    have hround := owed_rest (k := k) hf hlive
    have hlater := ih (live_rest (k := k) l)
    show t.owed f (t.after k n (t.rest k l)) +
      ((t.batch k l :: t.batches k n (t.rest k l)).map fun b => b.countP f).sum = _
    rw [List.map_cons, List.sum_cons]
    omega

/-- Nobody gets two turns in one round. -/
theorem nodup_of_mem_batches (hnodup : (l.map t.name).Nodup) {n : ℕ} {b : List α}
    (hb : b ∈ t.batches k n l) : (b.map t.name).Nodup := by
  induction n generalizing l with
  | zero => exact absurd hb List.not_mem_nil
  | succ n ih =>
    rcases List.mem_cons.mp hb with rfl | hb
    · exact nodup_batch hnodup
    · exact ih (nodup_rest t.name_spend hnodup) hb

theorem countP_name [DecidableEq β] (hnodup : (l.map t.name).Nodup) (x : β) :
    l.countP (fun a => t.name a = x) = if x ∈ l.map t.name then 1 else 0 := by
  have hcount : l.countP (fun a => t.name a = x) = (l.map t.name).count x := by
    rw [List.count, List.countP_map]
    congr 1
  rw [hcount]
  split_ifs with hx
  · exact List.count_eq_one_of_mem hnodup hx
  · exact List.count_eq_zero.mpr hx

theorem sum_eq_countP {γ : Type*} (p : γ → Bool) (l : List γ) :
    (l.map fun c => if p c then 1 else 0).sum = l.countP p := by
  induction l with
  | nil => rfl
  | cons c l ih =>
    rw [List.map_cons, List.sum_cons, List.countP_cons, ih]
    omega

/-- By the end everybody has had their turns. -/
theorem countP_batches [DecidableEq β] (hk : 0 < k) (hlive : t.Live l)
    (hnodup : (l.map t.name).Nodup) {a : α} (ha : a ∈ l) :
    (t.batches k (t.rounds k l) l).countP (fun b => t.name a ∈ b.map t.name) = t.left a := by
  have hend : t.after k (t.rounds k l) l = [] := (after_eq_nil_iff hk hlive).mpr (le_refl _)
  have hpaid := owed_after (t := t) (k := k) (f := fun b => t.name b = t.name a)
    (fun b => by rw [t.name_spend]) hlive (t.rounds k l)
  rw [hend, owed_of_mem hnodup ha] at hpaid
  have hnone : t.owed (fun b => decide (t.name b = t.name a)) [] = 0 := rfl
  rw [hnone, Nat.zero_add] at hpaid
  rw [← hpaid, ← sum_eq_countP]
  congr 1
  apply List.map_congr_left
  intro b hb
  rw [countP_name (nodup_of_mem_batches hnodup hb)]
  simp

/-! ## No fewer rounds will do -/

/-- Rounds of at most `k` turns that give everybody theirs are at least as many. -/
theorem rounds_le_of_turns [DecidableEq β] (hk : 0 < k) (hnodup : (l.map t.name).Nodup)
    {bs : List (List β)} (hsize : ∀ b ∈ bs, b.length ≤ k)
    (hturns : ∀ a ∈ l, t.left a ≤ bs.countP fun b => t.name a ∈ b) : t.rounds k l ≤ bs.length := by
  rw [rounds_le_iff hk]
  constructor
  · intro a ha
    exact (hturns a ha).trans List.countP_le_length
  · have hgiven : (l.map fun a => bs.countP fun b => t.name a ∈ b).sum ≤ k * bs.length := by
      clear hturns
      induction bs with
      | nil => simp
      | cons b bs ih =>
        have hrest := ih fun b' hb' => hsize b' (List.mem_cons_of_mem _ hb')
        have hfirst : (l.map fun a => if t.name a ∈ b then 1 else 0).sum ≤ k := by
          have hcount : (l.map fun a => if t.name a ∈ b then 1 else 0).sum =
              (l.filter fun a => t.name a ∈ b).length := by
            rw [← List.countP_eq_length_filter, ← sum_eq_countP]
            simp
          have hsub : ((l.filter fun a => t.name a ∈ b).map t.name).Subperm b := by
            apply List.Nodup.subperm
            · exact hnodup.sublist (List.filter_sublist.map t.name)
            · intro x hx
              obtain ⟨a, ha, rfl⟩ := List.mem_map.mp hx
              exact of_decide_eq_true (List.mem_filter.mp ha).2
          have hlen := hsub.length_le
          rw [List.length_map] at hlen
          rw [hcount]
          exact hlen.trans (hsize b List.mem_cons_self)
        have hsplit : (l.map fun a => (b :: bs).countP fun b => t.name a ∈ b).sum =
            (l.map fun a => bs.countP fun b => t.name a ∈ b).sum +
              (l.map fun a => if t.name a ∈ b then 1 else 0).sum := by
          rw [← List.sum_map_add]
          congr 1
          apply List.map_congr_left
          intro a _
          rw [List.countP_cons]
          simp
        rw [hsplit, List.length_cons, Nat.mul_succ]
        omega
    exact (List.sum_le_sum hturns).trans hgiven

end Turns
