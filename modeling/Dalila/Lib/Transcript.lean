import Dalila.Lib.Program

/-!
# Transcripts of programs

What a program asked for and what it got, in order, whatever the world was like. A statement about
every transcript holds however others get in between.
-/

namespace Program

universe u v

variable {Op : Type u} {Res : Op → Type v} {α β : Type v}

/-- An operation and its result. -/
abbrev Interaction (Op : Type u) (Res : Op → Type v) :=
  Σ o : Op, Res o

/-- The program has asked for these, and returned. -/
inductive Transcript : Program Op Res α → List (Interaction Op Res) → α → Prop where
  | ret (a : α) : Transcript (.ret a) [] a
  | step {o : Op} {next : Res o → Program Op Res α} {r : Res o} {es : List (Interaction Op Res)}
      {a : α} (h : Transcript (next r) es a) : Transcript (.step o next) (⟨o, r⟩ :: es) a

/-- Sequencing. -/
theorem transcript_bind {p : Program Op Res α} {f : α → Program Op Res β}
    {es : List (Interaction Op Res)} {b : β} (h : Transcript (p >>= f) es b) :
    ∃ es₁ es₂ a, es = es₁ ++ es₂ ∧ Transcript p es₁ a ∧ Transcript (f a) es₂ b := by
  replace h : Transcript (p.bind f) es b := h
  induction p generalizing es with
  | ret a => exact ⟨[], es, a, rfl, .ret a, h⟩
  | step o next ih =>
    cases h with
    | step h =>
      obtain ⟨es₁, es₂, a, rfl, hp, hf⟩ := ih _ h
      exact ⟨_ :: es₁, es₂, a, rfl, .step hp, hf⟩

theorem transcript_call_bind {o : Op} {f : Res o → Program Op Res β}
    {es : List (Interaction Op Res)} {b : β} (h : Transcript (call o >>= f) es b) :
    ∃ r es', es = ⟨o, r⟩ :: es' ∧ Transcript (f r) es' b := by
  cases h with
  | step h => exact ⟨_, _, rfl, h⟩

theorem transcript_pure {a b : α} {es : List (Interaction Op Res)}
    (h : Transcript (pure a : Program Op Res α) es b) : es = [] ∧ b = a := by
  cases h with
  | ret => exact ⟨rfl, rfl⟩

end Program
