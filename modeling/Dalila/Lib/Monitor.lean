import Dalila.Lib.Transcript

/-!
# Programs under a monitor

A monitor looks at what a program has done so far and says what it may do next. A program that
conforms is never caught, whatever its operations come to.
-/

namespace Program

universe u v

variable {Op : Type u} {Res : Op → Type v} {α β : Type v}

/-- After `past`, the program only does what it may, and what it returns is as `Q` says. -/
def Conforms (may : List (Interaction Op Res) → Op → Prop)
    (Q : List (Interaction Op Res) → α → Prop) :
    List (Interaction Op Res) → Program Op Res α → Prop
  | past, .ret a => Q past a
  | past, .step o next => may past o ∧ ∀ r, Conforms may Q (past ++ [⟨o, r⟩]) (next r)

variable {may : List (Interaction Op Res) → Op → Prop} {Q : List (Interaction Op Res) → α → Prop}
  {R : List (Interaction Op Res) → β → Prop} {past : List (Interaction Op Res)}

theorem Conforms.pure {a : α} (h : Q past a) :
    Conforms may Q past (Pure.pure a : Program Op Res α) := h

/-- One operation. -/
theorem Conforms.call_bind {o : Op} {f : Res o → Program Op Res β} (ho : may past o)
    (hf : ∀ r, Conforms may R (past ++ [⟨o, r⟩]) (f r)) :
    Conforms may R past (call o >>= f) := ⟨ho, hf⟩

theorem Conforms.call {o : Op} {Q : List (Interaction Op Res) → Res o → Prop} (ho : may past o)
    (hq : ∀ r, Q (past ++ [⟨o, r⟩]) r) : Conforms may Q past (Program.call o) := ⟨ho, hq⟩

/-- Sequencing. -/
theorem Conforms.bind {p : Program Op Res α} {f : α → Program Op Res β}
    (hp : Conforms may Q past p) (hf : ∀ a past, Q past a → Conforms may R past (f a)) :
    Conforms may R past (p >>= f) := by
  show Conforms may R past (p.bind f)
  induction p generalizing past with
  | ret a => exact hf a past hp
  | step o next ih => exact ⟨hp.1, fun r => ih r (hp.2 r)⟩

/-- Consequence. -/
theorem Conforms.imp {R : List (Interaction Op Res) → α → Prop} {p : Program Op Res α}
    (hp : Conforms may Q past p) (h : ∀ a past, Q past a → R past a) : Conforms may R past p := by
  induction p generalizing past with
  | ret a => exact h a past hp
  | step o next ih => exact ⟨hp.1, fun r => ih r (hp.2 r)⟩

/-- Whatever a program that conforms has done, it was allowed to when it did. -/
theorem Transcript.conforms {p : Program Op Res α} {es : List (Interaction Op Res)} {a : α}
    (h : Transcript p es a) (hp : Conforms may Q past p) :
    (∀ es₁ o r es₂, es = es₁ ++ ⟨o, r⟩ :: es₂ → may (past ++ es₁) o) ∧ Q (past ++ es) a := by
  induction h generalizing past with
  | ret a =>
    refine ⟨fun es₁ o r es₂ hes => absurd hes.symm (by simp), ?_⟩
    rw [List.append_nil]
    exact hp
  | @step o next r es a _ ih =>
    obtain ⟨hmay, hresult⟩ := ih (hp.2 r)
    rw [List.append_assoc] at hresult
    refine ⟨fun es₁ o' r' es₂ hes => ?_, hresult⟩
    cases es₁ with
    | nil =>
      obtain ⟨heq, _⟩ := List.cons.inj hes
      obtain ⟨rfl, _⟩ := Sigma.mk.inj heq
      rw [List.append_nil]
      exact hp.1
    | cons e es₁ =>
      obtain rfl := (List.cons.inj hes).1
      have hallowed := hmay es₁ o' r' es₂ (List.cons.inj hes).2
      rwa [List.append_assoc] at hallowed

end Program
