import Mathlib.Data.List.Basic
import Mathlib.Data.List.Perm.Basic
import Mathlib.Order.Lattice

/-!
# Last-writer-wins registers with an admission rule

A cell holds at most one entry. Writes carry a key from a linear order. A held entry is
overwritten by a write of a strictly greater key and by no other; an empty cell is only
filled by a write that is *admitted*.

Overwriting is order-independent, admission is not: a write that is not admitted is lost
when it comes too early. `Settled` says exactly when that cannot show.
-/

namespace Register

/-- What a cell does with writes `ρ` and entries `ε`, ordered by keys in `κ`. -/
structure Rules (ρ ε κ : Type*) where
  key : ρ → κ
  keyOf : ε → κ
  /-- May this write fill an empty cell? -/
  admits : ρ → Bool
  fresh : ρ → ε
  update : ε → ρ → ε
  keyOf_fresh : ∀ w, keyOf (fresh w) = key w
  keyOf_update : ∀ e w, keyOf (update e w) = key w
  update_update : ∀ e v w, update (update e v) w = update e w

variable {ρ ε κ : Type*} [LinearOrder κ] (R : Rules ρ ε κ)

/-- One write. -/
def offer (cell : Option ε) (w : ρ) : Option ε :=
  match cell with
  | none => if R.admits w then some (R.fresh w) else none
  | some e => if R.keyOf e < R.key w then some (R.update e w) else some e

theorem offer_some_of_lt {e : ε} {w : ρ} (h : R.keyOf e < R.key w) :
    offer R (some e) w = some (R.update e w) := if_pos h

theorem offer_some_of_le {e : ε} {w : ρ} (h : R.key w ≤ R.keyOf e) :
    offer R (some e) w = some e := if_neg (not_lt_of_ge h)

theorem offer_none_of_admits {w : ρ} (h : R.admits w = true) :
    offer R none w = some (R.fresh w) := if_pos h

theorem offer_none_of_not_admits {w : ρ} (h : R.admits w = false) : offer R none w = none := by
  simp [offer, h]

/-- A run of writes, first to last. -/
def offers (cell : Option ε) (ws : List ρ) : Option ε :=
  ws.foldl (offer R) cell

@[simp] theorem offers_nil (cell : Option ε) : offers R cell [] = cell := rfl

@[simp] theorem offers_cons (cell : Option ε) (w : ρ) (ws : List ρ) :
    offers R cell (w :: ws) = offers R (offer R cell w) ws := rfl

theorem offers_append (cell : Option ε) (vs ws : List ρ) :
    offers R cell (vs ++ ws) = offers R (offers R cell vs) ws :=
  List.foldl_append

/-! ## A cell that is filled -/

/-- The entry `e'` is what a cell holding `e` ends up with after the writes `ws`: `e` itself
if no write exceeds it, else the update by the earliest write of the greatest key. -/
inductive Outcome (e : ε) (ws : List ρ) (e' : ε) : Prop where
  | kept (h : e' = e) (hle : ∀ w ∈ ws, R.key w ≤ R.keyOf e)
  | replaced (before : List ρ) (w : ρ) (after : List ρ) (hws : ws = before ++ w :: after)
      (h : e' = R.update e w) (hgt : R.keyOf e < R.key w)
      (hbefore : ∀ v ∈ before, R.key v < R.key w) (hafter : ∀ v ∈ after, R.key v ≤ R.key w)

theorem offers_some (e : ε) (ws : List ρ) :
    ∃ e', offers R (some e) ws = some e' ∧ Outcome R e ws e' := by
  induction ws generalizing e with
  | nil => exact ⟨e, rfl, .kept rfl (by simp)⟩
  | cons w ws ih =>
    by_cases hw : R.keyOf e < R.key w
    · obtain ⟨e', he', hout⟩ := ih (R.update e w)
      refine ⟨e', by simp [offer, hw, he'], ?_⟩
      cases hout with
      | kept h hle =>
        exact .replaced [] w ws rfl h hw (by simp) fun v hv => by
          rw [← R.keyOf_update e w]
          exact hle v hv
      | replaced before v after hws h hgt hbefore hafter =>
        rw [R.keyOf_update] at hgt
        refine .replaced (w :: before) v after (by simp [hws]) ?_ (hw.trans hgt) ?_ hafter
        · rw [h, R.update_update]
        · intro u hu
          rcases List.mem_cons.mp hu with rfl | hu
          · exact hgt
          · exact hbefore u hu
    · obtain ⟨e', he', hout⟩ := ih e
      refine ⟨e', by simp [offer, hw, he'], ?_⟩
      have hwle : R.key w ≤ R.keyOf e := le_of_not_gt hw
      cases hout with
      | kept h hle =>
        refine .kept h fun v hv => ?_
        rcases List.mem_cons.mp hv with rfl | hv
        · exact hwle
        · exact hle v hv
      | replaced before v after hws h hgt hbefore hafter =>
        refine .replaced (w :: before) v after (by simp [hws]) h hgt ?_ hafter
        intro u hu
        rcases List.mem_cons.mp hu with rfl | hu
        · exact lt_of_le_of_lt hwle hgt
        · exact hbefore u hu

variable {R}

/-- Whatever happened, no write exceeds the final entry. -/
theorem Outcome.le {e e' : ε} {ws : List ρ} (h : Outcome R e ws e') :
    ∀ w ∈ ws, R.key w ≤ R.keyOf e' := by
  intro v hv
  cases h with
  | kept h hle => exact h ▸ hle v hv
  | replaced before w after hws h hgt hbefore hafter =>
    rw [h, R.keyOf_update]
    rw [hws, List.mem_append, List.mem_cons] at hv
    rcases hv with hv | rfl | hv
    · exact le_of_lt (hbefore v hv)
    · exact le_refl _
    · exact hafter v hv

theorem Outcome.keyOf_le {e e' : ε} {ws : List ρ} (h : Outcome R e ws e') :
    R.keyOf e ≤ R.keyOf e' := by
  cases h with
  | kept h _ => exact le_of_eq (by rw [h])
  | replaced before w after hws h hgt _ _ =>
    rw [h, R.keyOf_update]
    exact le_of_lt hgt

/-- The final entry is the old one, or an update of it by one of the writes. -/
theorem Outcome.eq_or {e e' : ε} {ws : List ρ} (h : Outcome R e ws e') :
    e' = e ∨ ∃ w ∈ ws, e' = R.update e w := by
  cases h with
  | kept h _ => exact .inl h
  | replaced before w after hws h _ _ _ => exact .inr ⟨w, by simp [hws], h⟩

/-- Writes that do not exceed the entry change nothing. -/
theorem offers_eq_of_le {e : ε} {ws : List ρ} (hle : ∀ w ∈ ws, R.key w ≤ R.keyOf e) :
    offers R (some e) ws = some e := by
  induction ws with
  | nil => rfl
  | cons w ws ih =>
    rw [offers_cons, offer_some_of_le R (hle w (by simp))]
    exact ih fun v hv => hle v (by simp [hv])

/-! ## A cell that is empty -/

/-- Writes that are not admitted leave an empty cell empty. -/
theorem offers_none_of_not_admits {ws : List ρ} (h : ∀ w ∈ ws, R.admits w = false) :
    offers R none ws = none := by
  induction ws with
  | nil => rfl
  | cons w ws ih =>
    rw [offers_cons, offer_none_of_not_admits R (h w (by simp))]
    exact ih fun v hv => h v (by simp [hv])

/-- The first admitted write fills the cell, and what came before it is lost. -/
theorem offers_none_of_first {before after : List ρ} {w : ρ}
    (hbefore : ∀ v ∈ before, R.admits v = false) (hw : R.admits w = true) :
    offers R none (before ++ w :: after) = offers R (some (R.fresh w)) after := by
  rw [offers_append, offers_none_of_not_admits hbefore, offers_cons, offer_none_of_admits R hw]

omit [LinearOrder κ] in
/-- Either no write is admitted, or there is a first one. -/
theorem exists_first_admitted (ws : List ρ) :
    (∀ w ∈ ws, R.admits w = false) ∨
      ∃ before w after, ws = before ++ w :: after ∧
        (∀ v ∈ before, R.admits v = false) ∧ R.admits w = true := by
  induction ws with
  | nil => exact .inl (by simp)
  | cons w ws ih =>
    cases hw : R.admits w with
    | true => exact .inr ⟨[], w, ws, rfl, by simp, hw⟩
    | false =>
      rcases ih with h | ⟨before, v, after, rfl, hbefore, hv⟩
      · refine .inl fun v hv => ?_
        rcases List.mem_cons.mp hv with rfl | hv
        · exact hw
        · exact h v hv
      · refine .inr ⟨w :: before, v, after, rfl, ?_, hv⟩
        intro u hu
        rcases List.mem_cons.mp hu with rfl | hu
        · exact hw
        · exact hbefore u hu

/-- What some write would be admitted for is filled after the run. -/
theorem isSome_offers_of_admits {cell : Option ε} {ws : List ρ} {w : ρ} (hw : w ∈ ws)
    (hadm : R.admits w = true) : (offers R cell ws).isSome := by
  cases cell with
  | some e =>
    obtain ⟨e', he', _⟩ := offers_some R e ws
    rw [he']
    rfl
  | none =>
    rcases exists_first_admitted (R := R) ws with hnone | ⟨before, v, after, rfl, hbefore, hv⟩
    · exact absurd (hnone w hw) (by simp [hadm])
    · obtain ⟨e', he', _⟩ := offers_some R (R.fresh v) after
      rw [offers_none_of_first hbefore hv, he']
      rfl

/-- What held of the cell, and holds of whatever is written, holds after the run. -/
theorem forall_offers {P : ε → Prop} {cell : Option ε} {ws : List ρ} (hcell : ∀ e ∈ cell, P e)
    (hfresh : ∀ w ∈ ws, P (R.fresh w)) (hupdate : ∀ e, ∀ w ∈ ws, P (R.update e w)) :
    ∀ e ∈ offers R cell ws, P e := by
  induction ws generalizing cell with
  | nil => exact hcell
  | cons w ws ih =>
    refine @ih (offer R cell w) ?_ (fun v hv => hfresh v (List.mem_cons_of_mem w hv))
      fun e v hv => hupdate e v (List.mem_cons_of_mem w hv)
    intro e he
    cases cell with
    | none =>
      simp only [offer, Option.mem_def, Option.ite_none_right_eq_some, Option.some.injEq] at he
      exact he.2 ▸ hfresh w List.mem_cons_self
    | some e₀ =>
      simp only [offer] at he
      split_ifs at he
      · exact Option.some.inj he ▸ hupdate e₀ w List.mem_cons_self
      · exact Option.some.inj he ▸ hcell e₀ rfl

/-! ## Repeating a run of writes -/

/-- On an empty cell a repeat changes nothing exactly when no write exceeds the entry the
first run ended with. -/
theorem offers_twice_none_iff (ws : List ρ) :
    offers R (offers R none ws) ws = offers R none ws ↔
      ∀ e', offers R none ws = some e' → ∀ w ∈ ws, R.key w ≤ R.keyOf e' := by
  cases h : offers R none ws with
  | none => simp [h]
  | some e' =>
    obtain ⟨e'', he'', hout⟩ := offers_some R e' ws
    simp only [Option.some.injEq, forall_eq']
    constructor
    · intro heq w hw
      rw [he''] at heq
      exact Option.some.inj heq ▸ hout.le w hw
    · exact offers_eq_of_le

/-! ## Reordering a run of writes -/

section Reorder

variable {ν : Type*} {view : ε → ν}

/-- What makes the writes of two runs comparable: at one key they say the same, and an
update of a fresh entry looks like the entry made afresh. -/
structure Coherent (R : Rules ρ ε κ) (view : ε → ν) (ws : List ρ) : Prop where
  update_view : ∀ v ∈ ws, ∀ w ∈ ws, R.key v = R.key w →
    ∀ e, view (R.update e v) = view (R.update e w)
  fresh_view : ∀ v ∈ ws, ∀ w ∈ ws, view (R.update (R.fresh v) w) = view (R.fresh w)

/-- Two runs offer the same if every write of one has its like in the other. -/
def SameWrites (R : Rules ρ ε κ) (vs ws : List ρ) : Prop :=
  (∀ v ∈ vs, ∃ w ∈ ws, R.key v = R.key w ∧ R.admits v = R.admits w) ∧
    ∀ w ∈ ws, ∃ v ∈ vs, R.key w = R.key v ∧ R.admits w = R.admits v

/-- Nothing lost can matter: if any write is admitted, an admitted one has the greatest key. -/
def Settled (R : Rules ρ ε κ) (ws : List ρ) : Prop :=
  (∃ w ∈ ws, R.admits w = true) → ∃ w ∈ ws, R.admits w = true ∧ ∀ v ∈ ws, R.key v ≤ R.key w

omit [LinearOrder κ] in
theorem Coherent.fresh_view_of_key {ws : List ρ} (h : Coherent R view ws) {v w : ρ}
    (hv : v ∈ ws) (hw : w ∈ ws) (hkey : R.key v = R.key w) :
    view (R.fresh v) = view (R.fresh w) := by
  calc view (R.fresh v) = view (R.update (R.fresh w) v) := (h.fresh_view w hw v hv).symm
    _ = view (R.update (R.fresh w) w) := h.update_view v hv w hw hkey _
    _ = view (R.fresh w) := h.fresh_view w hw w hw

/-- Overwriting is order-independent: a filled cell ends up the same. -/
theorem view_offers_some {e : ε} {vs ws : List ρ} (hcoh : Coherent R view (vs ++ ws))
    (hsame : SameWrites R vs ws) :
    (offers R (some e) vs).map view = (offers R (some e) ws).map view := by
  obtain ⟨a, ha, hva⟩ := offers_some R e vs
  obtain ⟨b, hb, hwb⟩ := offers_some R e ws
  rw [ha, hb]
  simp only [Option.map_some, Option.some.injEq]
  cases hva with
  | kept h hle =>
    cases hwb with
    | kept h' _ => rw [h, h']
    | replaced before w after hws h' hgt _ _ =>
      obtain ⟨v, hv, hkey, _⟩ := hsame.2 w (by simp [hws])
      exact absurd (hle v hv) (not_le_of_gt (hkey ▸ hgt))
  | replaced before v after hvs h hgt hbefore hafter =>
    have hva : Outcome R e vs a := .replaced before v after hvs h hgt hbefore hafter
    cases hwb with
    | kept h' hle =>
      obtain ⟨w, hw, hkey, _⟩ := hsame.1 v (by simp [hvs])
      exact absurd (hle w hw) (not_le_of_gt (hkey ▸ hgt))
    | replaced before' w after' hws h' hgt' hbefore' hafter' =>
      have hwb : Outcome R e ws b := .replaced before' w after' hws h' hgt' hbefore' hafter'
      have hle : R.key v ≤ R.key w := by
        obtain ⟨w', hw', hkey, _⟩ := hsame.1 v (by simp [hvs])
        have := hwb.le w' hw'
        rwa [h', R.keyOf_update, ← hkey] at this
      have hge : R.key w ≤ R.key v := by
        obtain ⟨v', hv', hkey, _⟩ := hsame.2 w (by simp [hws])
        have := hva.le v' hv'
        rwa [h, R.keyOf_update, ← hkey] at this
      rw [h, h']
      exact hcoh.update_view v (by simp [hvs]) w (by simp [hws]) (le_antisymm hle hge) e

/-- If nothing lost can matter, an empty cell ends up looking like the greatest write. -/
theorem view_offers_none {ws : List ρ} (hcoh : Coherent R view ws) {w : ρ} (hw : w ∈ ws)
    (hadm : R.admits w = true) (hmax : ∀ v ∈ ws, R.key v ≤ R.key w) :
    (offers R none ws).map view = some (view (R.fresh w)) := by
  rcases exists_first_admitted (R := R) ws with hall | ⟨before, u, after, rfl, hbefore, hu⟩
  · exact absurd hadm (by simp [hall w hw])
  have hw' : w = u ∨ w ∈ after := by
    rcases List.mem_append.mp hw with hb | ha
    · exact absurd hadm (by simp [hbefore w hb])
    · exact List.mem_cons.mp ha
  obtain ⟨e', he', hout⟩ := offers_some R (R.fresh u) after
  rw [offers_none_of_first hbefore hu, he']
  simp only [Option.map_some, Option.some.injEq]
  -- the final key is the greatest one, so the final view is that of any write at that key
  have hle : R.key w ≤ R.keyOf e' := by
    rcases hw' with rfl | ha
    · rw [← R.keyOf_fresh w]
      exact hout.keyOf_le
    · exact hout.le w ha
  rcases hout.eq_or with rfl | ⟨v, hv, rfl⟩
  · rw [R.keyOf_fresh] at hle
    exact hcoh.fresh_view_of_key (by simp) hw (le_antisymm (hmax u (by simp)) hle)
  · rw [R.keyOf_update] at hle
    rw [hcoh.fresh_view u (by simp) v (by simp [hv])]
    exact hcoh.fresh_view_of_key (by simp [hv]) hw (le_antisymm (hmax v (by simp [hv])) hle)

/-- An empty cell ends up the same in either order if nothing lost can matter. -/
theorem view_offers_none_of_settled {vs ws : List ρ} (hcoh : Coherent R view (vs ++ ws))
    (hsame : SameWrites R vs ws) (hset : Settled R ws) :
    (offers R none vs).map view = (offers R none ws).map view := by
  have hcohv : Coherent R view vs :=
    ⟨fun v hv w hw => hcoh.update_view v (by simp [hv]) w (by simp [hw]),
      fun v hv w hw => hcoh.fresh_view v (by simp [hv]) w (by simp [hw])⟩
  have hcohw : Coherent R view ws :=
    ⟨fun v hv w hw => hcoh.update_view v (by simp [hv]) w (by simp [hw]),
      fun v hv w hw => hcoh.fresh_view v (by simp [hv]) w (by simp [hw])⟩
  by_cases hany : ∃ w ∈ ws, R.admits w = true
  · obtain ⟨w, hw, hadm, hmax⟩ := hset hany
    obtain ⟨v, hv, hkey, hvadm⟩ := hsame.2 w hw
    have hvmax : ∀ u ∈ vs, R.key u ≤ R.key v := by
      intro u hu
      obtain ⟨u', hu', hukey, _⟩ := hsame.1 u hu
      rw [hukey, ← hkey]
      exact hmax u' hu'
    rw [view_offers_none hcohw hw hadm hmax,
      view_offers_none hcohv hv (by rw [← hvadm, hadm]) hvmax]
    exact congrArg some (hcoh.fresh_view_of_key (by simp [hv]) (by simp [hw]) hkey.symm)
  · have hws : ∀ w ∈ ws, R.admits w = false := by
      intro w hw
      by_contra h
      exact hany ⟨w, hw, by simpa using h⟩
    have hvs : ∀ v ∈ vs, R.admits v = false := by
      intro v hv
      obtain ⟨w, hw, _, hadm⟩ := hsame.1 v hv
      rw [hadm, hws w hw]
    rw [offers_none_of_not_admits hvs, offers_none_of_not_admits hws]

/-- Where something lost can matter, it does: with the writes that are not admitted first
the cell ends below the greatest write, with them last it does not. -/
theorem exists_perm_of_not_settled {ws : List ρ} (hset : ¬ Settled R ws) :
    ∃ a b, (offers R none (ws.filter (fun w => !R.admits w) ++ ws.filter R.admits)) = some a ∧
      offers R none (ws.filter R.admits ++ ws.filter (fun w => !R.admits w)) = some b ∧
      R.keyOf a < R.keyOf b := by
  unfold Settled at hset
  push Not at hset
  obtain ⟨⟨u, hu, huadm⟩, hexceeded⟩ := hset
  have hfirst : ∃ w rest, ws.filter R.admits = w :: rest := by
    cases h : ws.filter R.admits with
    | nil => exact absurd (List.mem_filter.mpr ⟨hu, huadm⟩) (by simp [h])
    | cons w rest => exact ⟨w, rest, rfl⟩
  obtain ⟨w, rest, hadm⟩ := hfirst
  have hw : w ∈ ws ∧ R.admits w = true := List.mem_filter.mp (by simp [hadm])
  have hlost : ∀ v ∈ ws.filter (fun w => !R.admits w), R.admits v = false := by
    intro v hv
    simpa using (List.mem_filter.mp hv).2
  -- lost first: only admitted writes count
  have ha : offers R none (ws.filter (fun w => !R.admits w) ++ w :: rest) =
      offers R (some (R.fresh w)) rest := offers_none_of_first hlost hw.2
  obtain ⟨a, hra, houta⟩ := offers_some R (R.fresh w) rest
  -- lost last: every write counts
  have hb : offers R none ([] ++ w :: (rest ++ ws.filter (fun w => !R.admits w))) =
      offers R (some (R.fresh w)) (rest ++ ws.filter (fun w => !R.admits w)) :=
    offers_none_of_first (by simp) hw.2
  obtain ⟨b, hrb, houtb⟩ := offers_some R (R.fresh w) (rest ++ ws.filter (fun w => !R.admits w))
  have hkeya : ∃ v ∈ ws, R.admits v = true ∧ R.keyOf a = R.key v := by
    rcases houta.eq_or with rfl | ⟨v, hv, rfl⟩
    · exact ⟨w, hw.1, hw.2, R.keyOf_fresh w⟩
    · have hv' : v ∈ ws.filter R.admits := by simp [hadm, hv]
      exact ⟨v, (List.mem_filter.mp hv').1, (List.mem_filter.mp hv').2, R.keyOf_update _ v⟩
  obtain ⟨v, hv, hvadm, hva⟩ := hkeya
  obtain ⟨x, hx, hvx⟩ := hexceeded v hv hvadm
  have hxb : R.key x ≤ R.keyOf b := by
    by_cases hxadm : R.admits x = true
    · have hx' : x ∈ ws.filter R.admits := List.mem_filter.mpr ⟨hx, hxadm⟩
      rw [hadm, List.mem_cons] at hx'
      rcases hx' with rfl | hx'
      · rw [← R.keyOf_fresh x]
        exact houtb.keyOf_le
      · exact houtb.le x (by simp [hx'])
    · exact houtb.le x (by simp [hx, hxadm])
  refine ⟨a, b, by rw [hadm, ha, hra], ?_, by rw [hva]; exact lt_of_lt_of_le hvx hxb⟩
  rw [hadm, List.cons_append]
  exact hb.trans hrb

end Reorder

end Register
