import Mathlib.Data.Int.CardIntervalMod
import Mathlib.Data.List.Rotate

/-!
# Walking a list in a circle

The walk starts where a counter is and takes every index modulo the length. The counter itself
wraps at `W`, which the walk can only survive where the length divides it.
-/

universe u

namespace List

variable {α : Type u} {l : List α} {W start : ℕ}

/-- From `start` on, as many entries as there are. -/
def walk (W start : ℕ) (l : List α) : List α :=
  ofFn fun i : Fin l.length => l.get ⟨(start + i) % W % l.length, Nat.mod_lt _ i.pos⟩

@[simp] theorem length_walk : (walk W start l).length = l.length := by
  simp [walk]

theorem getElem_walk {i : ℕ} (hi : i < (walk W start l).length) :
    (walk W start l)[i]? = l[(start + i) % W % l.length]? := by
  have hlen : i < l.length := by simpa using hi
  have hidx : (start + i) % W % l.length < l.length := Nat.mod_lt _ (by omega)
  rw [getElem?_eq_getElem hi, getElem?_eq_getElem hidx]
  simp [walk]

theorem getElem?_rotate_of_lt {i n : ℕ} (hi : i < l.length) :
    (l.rotate n)[i]? = l[(i + n) % l.length]? := by
  have hlen : i < (l.rotate n).length := by simpa using hi
  have hidx : (i + n) % l.length < l.length := Nat.mod_lt _ (by omega)
  rw [getElem?_eq_getElem hlen, getElem?_eq_getElem hidx, getElem_rotate]

/-- Where the counter doesn't get to its end, or the end is no seam, the walk goes round once. -/
theorem walk_eq_rotate (hround : start + l.length ≤ W ∨ l.length ∣ W) :
    walk W start l = l.rotate start := by
  apply ext_getElem?
  intro i
  by_cases hi : i < l.length
  · rw [getElem_walk (by simpa using hi), getElem?_rotate_of_lt hi]
    have hidx : (start + i) % W % l.length = (i + start) % l.length := by
      rw [Nat.add_comm i start]
      rcases hround with hfits | hdvd
      · rw [Nat.mod_eq_of_lt (show start + i < W by omega)]
      · exact Nat.mod_mod_of_dvd _ hdvd
    rw [hidx]
  · rw [getElem?_eq_none (by simpa using hi), getElem?_eq_none (by simpa using hi)]

/-- Nowhere else does it. -/
theorem walk_isRotated_iff (hnodup : l.Nodup) (hstart : start < W) :
    walk W start l ~r l ↔ start + l.length ≤ W ∨ l.length ∣ W := by
  constructor
  · intro hrotated
    by_contra hnot
    rw [not_or, not_le] at hnot
    obtain ⟨hover, hdvd⟩ := hnot
    obtain ⟨n, hn⟩ := hrotated.symm
    have hsame : ∀ i < l.length, (start + i) % W % l.length = (i + n) % l.length := by
      intro i hi
      have hwalk : (walk W start l)[i]? = _ := getElem_walk (by simpa using hi)
      rw [← hn, getElem?_rotate_of_lt hi] at hwalk
      have hpos : 0 < l.length := by omega
      exact ((getElem?_inj (Nat.mod_lt _ hpos) hnodup).mp hwalk).symm
    -- where the counter wraps, the walk is back at the first entry
    have hfirst := hsame 0 (by omega)
    have hwrap := hsame (W - start) (by omega)
    rw [Nat.add_zero, Nat.zero_add, Nat.mod_eq_of_lt hstart] at hfirst
    have hend : start + (W - start) = W := by omega
    rw [hend, Nat.mod_self, Nat.zero_mod] at hwrap
    have hzero : W % l.length = 0 := by
      calc W % l.length = ((W - start) + start) % l.length := by rw [Nat.sub_add_cancel hstart.le]
        _ = ((W - start) + n) % l.length := by rw [Nat.add_mod, hfirst, ← Nat.add_mod]
        _ = 0 := hwrap.symm
    exact hdvd (Nat.dvd_of_mod_eq_zero hzero)
  · intro hround
    rw [walk_eq_rotate hround]
    exact IsRotated.symm ⟨start, rfl⟩

/-! ## Turn by turn -/

theorem countP_range (p : ℕ → Bool) (n : ℕ) :
    (range n).countP p = n.count fun k => p k = true := by
  induction n with
  | zero => rfl
  | succ n ih => rw [range_succ, countP_append, Nat.count_succ, ih, countP_singleton]

/-- Of `n` turns in a row, everybody gets his share. -/
theorem count_turns [DecidableEq α] (hnodup : l.Nodup) {a : α} (ha : a ∈ l) (start n : ℕ) :
    n / l.length ≤ ((range n).map fun k => l[(start + k) % l.length]?).count (some a) ∧
      ((range n).map fun k => l[(start + k) % l.length]?).count (some a) ≤ n / l.length + 1 := by
  obtain ⟨j, hj, rfl⟩ := getElem_of_mem ha
  have hpos : 0 < l.length := by omega
  -- the first of its turns, counted from `start`
  set v := j + (l.length - start % l.length) with hv
  have hround : v + start ≡ j [MOD l.length] := by
    have hmod : start % l.length < l.length := Nat.mod_lt _ hpos
    have hdiv := Nat.div_add_mod start l.length
    have hsum : v + start = j + l.length * (start / l.length + 1) := by
      rw [Nat.mul_add, Nat.mul_one]
      omega
    rw [hsum]
    exact Nat.add_mul_mod_self_left j l.length _
  have hturn : ∀ k, l[(start + k) % l.length]? = some l[j] ↔ k ≡ v [MOD l.length] := by
    intro k
    rw [← getElem?_eq_getElem hj, getElem?_inj (Nat.mod_lt _ hpos) hnodup]
    calc (start + k) % l.length = j
      _ ↔ k + start ≡ j [MOD l.length] := by
        rw [Nat.ModEq, Nat.mod_eq_of_lt hj, Nat.add_comm]
      _ ↔ k + start ≡ v + start [MOD l.length] :=
        ⟨fun h => h.trans hround.symm, fun h => h.trans hround⟩
      _ ↔ k ≡ v [MOD l.length] := ⟨fun h => h.add_right_cancel', fun h => h.add_right start⟩
  have hcount : ((range n).map fun k => l[(start + k) % l.length]?).count (some l[j]) =
      n.count fun k => k ≡ v [MOD l.length] := by
    rw [count_eq_countP, countP_map]
    calc (range n).countP _
      _ = (range n).countP fun k => decide (k ≡ v [MOD l.length]) :=
        countP_congr fun k _ => by simpa using hturn k
      _ = n.count fun k => k ≡ v [MOD l.length] := by
        rw [countP_range]
        simp
  rw [hcount, Nat.count_modEq_card _ hpos]
  split_ifs <;> omega

end List
