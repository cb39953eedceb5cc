import Mathlib.Tactic.Common

/-!
# Programs of atomic operations

A program is a tree: call an operation, go on with its result. Nothing says what happens
between two operations, so other programs may run there.

`Follows` is the logic for that setting. A contract says what may be learned over time
(`later`), what must be known to call an operation (`pre`) and what its result says
(`post`). A program follows the contract if it calls every operation within `pre`, whatever
becomes known in between. The rules are the usual ones: call, sequence, consequence.

`Keeps` is the logic for what a program has done itself: others act between its operations, and
each operation says what it makes of the state it finds.

`Exec` is the other reading: the program alone, one operation after another.
-/

universe u v

/-- A program calls an operation and goes on with its result, or returns. -/
inductive Program (Op : Type u) (Res : Op → Type v) (α : Type v) where
  | ret (a : α)
  | step (o : Op) (next : Res o → Program Op Res α)

namespace Program

variable {Op : Type u} {Res : Op → Type v} {α β γ : Type v}

def bind (p : Program Op Res α) (f : α → Program Op Res β) : Program Op Res β :=
  match p with
  | .ret a => f a
  | .step o next => .step o fun r => (next r).bind f

/-- A program of one operation. -/
def call (o : Op) : Program Op Res (Res o) :=
  .step o .ret

instance : Monad (Program Op Res) where
  pure := .ret
  bind := bind

@[simp] theorem ret_bind (a : α) (f : α → Program Op Res β) : (ret a).bind f = f a := rfl

@[simp] theorem step_bind (o : Op) (next : Res o → Program Op Res α)
    (f : α → Program Op Res β) : (step o next).bind f = .step o fun r => (next r).bind f := rfl

theorem bind_assoc (p : Program Op Res α) (f : α → Program Op Res β)
    (g : β → Program Op Res γ) : (p.bind f).bind g = p.bind fun a => (f a).bind g := by
  induction p with
  | ret a => rfl
  | step o next ih => simp only [step_bind, ih]

/-! ## Knowledge under interference -/

/-- What the callers of operations must know and may learn. -/
structure Contract (Op : Type u) (Res : Op → Type v) (κ : Type*) where
  /-- What may be known later, whoever acts in between. -/
  later : κ → κ → Prop
  later_refl : ∀ k, later k k
  later_trans : ∀ {a b c}, later a b → later b c → later a c
  pre : Op → κ → Prop
  post : ∀ o, Res o → κ → Prop

variable {κ : Type*} (C : Contract Op Res κ)

/-- From `k` on the program calls every operation within its precondition, and what it
returns satisfies `Q`. -/
def Follows (Q : α → κ → Prop) : Program Op Res α → κ → Prop
  | .ret a, k => ∀ k', C.later k k' → Q a k'
  | .step o next, k => ∀ k', C.later k k' → C.pre o k' ∧
      ∀ r k'', C.later k' k'' → C.post o r k'' → Follows Q (next r) k''

variable {C} {Q : α → κ → Prop} {k k' : κ}

/-- More may have become known meanwhile. -/
theorem Follows.mono {p : Program Op Res α} (h : Follows C Q p k) (hk : C.later k k') :
    Follows C Q p k' := by
  cases p with
  | ret a => exact fun k'' hk'' => h k'' (C.later_trans hk hk'')
  | step o next => exact fun k'' hk'' => h k'' (C.later_trans hk hk'')

theorem Follows.pure {a : α} (h : ∀ k', C.later k k' → Q a k') :
    Follows C Q (Pure.pure a : Program Op Res α) k := h

/-- One operation: its precondition, and then its postcondition is known. -/
theorem Follows.call {o : Op} (hpre : ∀ k', C.later k k' → C.pre o k')
    {Q : Res o → κ → Prop}
    (hpost : ∀ r k', C.later k k' → C.post o r k' → ∀ k'', C.later k' k'' → Q r k'') :
    Follows C Q (Program.call o) k := fun k' hk' =>
  ⟨hpre k' hk', fun r k'' hk'' hp => hpost r k'' (C.later_trans hk' hk'') hp⟩

/-- Sequencing. -/
theorem Follows.bind {p : Program Op Res α} {f : α → Program Op Res β} {R : β → κ → Prop}
    (hp : Follows C Q p k)
    (hf : ∀ a k', C.later k k' → Q a k' → Follows C R (f a) k') :
    Follows C R (p >>= f) k := by
  show Follows C R (p.bind f) k
  induction p generalizing k with
  | ret a =>
    have hQ : Q a k := hp k (C.later_refl k)
    exact hf a k (C.later_refl k) hQ
  | step o next ih =>
    intro k' hk'
    obtain ⟨hpre, hnext⟩ := hp k' hk'
    refine ⟨hpre, fun r k'' hk'' hpost => ih r (hnext r k'' hk'' hpost) ?_⟩
    exact fun a k₃ hk₃ => hf a k₃ (C.later_trans (C.later_trans hk' hk'') hk₃)

/-- Sequencing after one operation. -/
theorem Follows.call_bind {o : Op} {f : Res o → Program Op Res β} {R : β → κ → Prop}
    (hpre : ∀ k', C.later k k' → C.pre o k')
    (hf : ∀ r k', C.later k k' → C.post o r k' → Follows C R (f r) k') :
    Follows C R (Program.call o >>= f) k := fun k' hk' =>
  ⟨hpre k' hk', fun r k'' hk'' hp => hf r k'' (C.later_trans hk' hk'') hp⟩

/-- Consequence. -/
theorem Follows.imp {p : Program Op Res α} {R : α → κ → Prop} (hp : Follows C Q p k)
    (h : ∀ a k', C.later k k' → Q a k' → R a k') : Follows C R p k := by
  induction p generalizing k with
  | ret a => exact fun k' hk' => h a k' hk' (hp k' hk')
  | step o next ih =>
    intro k' hk'
    obtain ⟨hpre, hnext⟩ := hp k' hk'
    refine ⟨hpre, fun r k'' hk'' hpost => ih r (hnext r k'' hk'' hpost) ?_⟩
    exact fun a k₃ hk₃ => h a k₃ (C.later_trans (C.later_trans hk' hk'') hk₃)

/-- What the first operation shows may be used for the result. -/
theorem Follows.imp_call_bind {o : Op} {f : Res o → Program Op Res β} {Q R : β → κ → Prop}
    (hp : Follows C Q (Program.call o >>= f) k)
    (h : ∀ r k', C.later k k' → C.post o r k' → ∀ b k'', C.later k' k'' → Q b k'' → R b k'') :
    Follows C R (Program.call o >>= f) k := fun k' hk' =>
  ⟨(hp k' hk').1, fun r k'' hk'' hpost =>
    ((hp k' hk').2 r k'' hk'' hpost).imp (h r k'' (C.later_trans hk' hk'') hpost)⟩

/-- What a program about to call `o` may rely on, and what its rest follows. -/
theorem Follows.step {o : Op} {next : Res o → Program Op Res α}
    (h : Follows C Q (.step o next) k) :
    C.pre o k ∧ ∀ r k', C.later k k' → C.post o r k' → Follows C Q (next r) k' :=
  h k (C.later_refl k)

/-- What has returned has reached its postcondition. -/
theorem Follows.result {a : α} (h : Follows C Q (.ret a : Program Op Res α) k) : Q a k :=
  h k (C.later_refl k)

/-! ## What a program has done itself -/

/-- What others may make of the state between two operations, when an operation may be called,
and what it makes of the state itself. -/
structure Regime (Op : Type u) (Res : Op → Type v) (σ : Type*) where
  others : σ → σ → Prop
  others_refl : ∀ s, others s s
  others_trans : ∀ {s t u}, others s t → others t u → others s u
  may : Op → σ → Prop
  does : ∀ o, Res o → σ → σ → Prop

section

variable {σ : Type*} (R : Regime Op Res σ)

/-- From `s` on the program calls an operation only when it may, and leaves `Q`. -/
def Keeps (Q : α → σ → Prop) : Program Op Res α → σ → Prop
  | .ret a, s => ∀ t, R.others s t → Q a t
  | .step o next, s => ∀ t, R.others s t → R.may o t ∧
      ∀ r u, R.does o r t u → Keeps Q (next r) u

variable {R} {Q : α → σ → Prop} {s t : σ}

/-- Others may have acted meanwhile. -/
theorem Keeps.mono {p : Program Op Res α} (h : Keeps R Q p s) (hs : R.others s t) :
    Keeps R Q p t := by
  cases p with
  | ret a => exact fun u hu => h u (R.others_trans hs hu)
  | step o next => exact fun u hu => h u (R.others_trans hs hu)

theorem Keeps.pure {a : α} (h : ∀ t, R.others s t → Q a t) :
    Keeps R Q (Pure.pure a : Program Op Res α) s := h

/-- Sequencing after one operation. -/
theorem Keeps.call_bind {o : Op} {f : Res o → Program Op Res β} {P : β → σ → Prop}
    (hmay : ∀ t, R.others s t → R.may o t)
    (hf : ∀ r t u, R.others s t → R.does o r t u → Keeps R P (f r) u) :
    Keeps R P (Program.call o >>= f) s := fun t ht =>
  ⟨hmay t ht, fun r u hu => hf r t u ht hu⟩

/-- Sequencing. -/
theorem Keeps.bind {p : Program Op Res α} {f : α → Program Op Res β} {P : β → σ → Prop}
    (hp : Keeps R Q p s) (hf : ∀ a t, Q a t → Keeps R P (f a) t) : Keeps R P (p >>= f) s := by
  show Keeps R P (p.bind f) s
  induction p generalizing s with
  | ret a => exact hf a s (hp s (R.others_refl s))
  | step o next ih =>
    intro t ht
    obtain ⟨hmay, hnext⟩ := hp t ht
    exact ⟨hmay, fun r u hu => ih r (hnext r u hu)⟩

/-- Consequence. -/
theorem Keeps.imp {p : Program Op Res α} {P : α → σ → Prop} (hp : Keeps R Q p s)
    (h : ∀ a t, Q a t → P a t) : Keeps R P p s := by
  induction p generalizing s with
  | ret a => exact fun t ht => h a t (hp t ht)
  | step o next ih =>
    intro t ht
    obtain ⟨hmay, hnext⟩ := hp t ht
    exact ⟨hmay, fun r u hu => ih r (hnext r u hu)⟩

/-- What holds when a program is about to call `o`, and what its rest keeps. -/
theorem Keeps.step {o : Op} {next : Res o → Program Op Res α} (h : Keeps R Q (.step o next) s) :
    R.may o s ∧ ∀ r t, R.does o r s t → Keeps R Q (next r) t := h s (R.others_refl s)

theorem Keeps.result {a : α} (h : Keeps R Q (.ret a : Program Op Res α) s) : Q a s :=
  h s (R.others_refl s)

/-- Every program keeps to a regime that restricts nothing. -/
theorem Keeps.free (hmay : ∀ o s, R.may o s) (p : Program Op Res α) (s : σ) :
    Keeps R (fun _ _ => True) p s := by
  induction p generalizing s with
  | ret a => exact fun _ _ => trivial
  | step o next ih => exact fun t _ => ⟨hmay o t, fun r u _ => ih r u⟩

end

/-! ## Where a program waits -/

/-- Wherever the program stops at one of the operations `waits`, the rest of it satisfies
`P`. -/
def AtWaits (waits : Op → Prop) (P : Program Op Res α → Prop) : Program Op Res α → Prop
  | .ret _ => True
  | .step o next => (waits o → P (.step o next)) ∧ ∀ r, AtWaits waits P (next r)

variable {waits : Op → Prop}

theorem AtWaits.call_bind {P : Program Op Res β → Prop} {o : Op} {f : Res o → Program Op Res β}
    (ho : waits o → P (Program.call o >>= f)) (hf : ∀ r, AtWaits waits P (f r)) :
    AtWaits waits P (Program.call o >>= f) := ⟨ho, hf⟩

/-- Consequence. -/
theorem AtWaits.imp {P P' : Program Op Res α → Prop} {p : Program Op Res α}
    (hp : AtWaits waits P p) (h : ∀ p, P p → P' p) : AtWaits waits P' p := by
  induction p with
  | ret a => trivial
  | step o next ih => exact ⟨fun ho => h _ (hp.1 ho), fun r => ih r (hp.2 r)⟩

/-- A program without the operations `waits'` is one without fewer of them. -/
theorem AtWaits.of_le {waits' : Op → Prop} (hle : ∀ o, waits o → waits' o)
    {p : Program Op Res α} (hp : AtWaits waits' (fun _ => False) p) :
    AtWaits waits (fun _ => False) p := by
  induction p with
  | ret a => trivial
  | step o next ih => exact ⟨fun ho => hp.1 (hle o ho), fun r => ih r (hp.2 r)⟩

/-- A program follows a contract that asks nothing of the operations it calls. -/
theorem AtWaits.follows {p : Program Op Res α} (hp : AtWaits waits (fun _ => False) p)
    (hpre : ∀ o, ¬ waits o → ∀ k, C.pre o k) (k : κ) : Follows C (fun _ _ => True) p k := by
  induction p generalizing k with
  | ret a => exact fun _ _ => trivial
  | step o next ih =>
    intro k' _
    exact ⟨hpre o hp.1 k', fun r k'' _ _ => ih r (hp.2 r) k''⟩

/-- A program keeps to a regime that restricts none of the operations it calls. -/
theorem AtWaits.keeps {σ : Type*} {R : Regime Op Res σ} {p : Program Op Res α}
    (hp : AtWaits waits (fun _ => False) p) (hmay : ∀ o, ¬ waits o → ∀ s, R.may o s) (s : σ) :
    Keeps R (fun _ _ => True) p s := by
  induction p generalizing s with
  | ret a => exact fun _ _ => trivial
  | step o next ih =>
    intro t _
    exact ⟨hmay o hp.1 t, fun r u _ => ih r (hp.2 r) u⟩

/-- Sequencing. -/
theorem AtWaits.bind {P : Program Op Res α → Prop} {P' : Program Op Res β → Prop}
    {p : Program Op Res α} {f : α → Program Op Res β} (hp : AtWaits waits P p)
    (hP : ∀ p, P p → P' (p >>= f)) (hf : ∀ a, AtWaits waits P' (f a)) :
    AtWaits waits P' (p >>= f) := by
  show AtWaits waits P' (p.bind f)
  induction p with
  | ret a => exact hf a
  | step o next ih => exact ⟨fun ho => hP _ (hp.1 ho), fun r => ih r (hp.2 r)⟩

/-! ## A program alone -/

/-- The program from `s` to its result in `t`, with nothing in between. -/
inductive Exec {σ : Type*} (run : ∀ o, σ → Res o → σ → Prop) :
    Program Op Res α → σ → α → σ → Prop where
  | ret (a : α) (s : σ) : Exec run (.ret a) s a s
  | step {o : Op} {next : Res o → Program Op Res α} {s t u : σ} {r : Res o} {a : α}
      (h : run o s r t) (hnext : Exec run (next r) t a u) : Exec run (.step o next) s a u

section

variable {σ : Type*} {run : ∀ o, σ → Res o → σ → Prop} {s t u : σ}

@[simp] theorem exec_ret {a b : α} :
    Exec run (.ret a : Program Op Res α) s b t ↔ b = a ∧ t = s := by
  constructor
  · intro h
    cases h
    exact ⟨rfl, rfl⟩
  · rintro ⟨rfl, rfl⟩
    exact .ret b t

@[simp] theorem exec_pure {a b : α} :
    Exec run (Pure.pure a : Program Op Res α) s b t ↔ b = a ∧ t = s := exec_ret

theorem exec_step {o : Op} {next : Res o → Program Op Res α} {a : α} :
    Exec run (.step o next) s a u ↔ ∃ r t, run o s r t ∧ Exec run (next r) t a u := by
  constructor
  · intro h
    cases h with
    | step h hnext => exact ⟨_, _, h, hnext⟩
  · rintro ⟨r, t, h, hnext⟩
    exact .step h hnext

/-- Sequencing: there is a state in between. -/
theorem exec_bind {p : Program Op Res α} {f : α → Program Op Res β} {b : β} :
    Exec run (p >>= f) s b u ↔ ∃ a t, Exec run p s a t ∧ Exec run (f a) t b u := by
  show Exec run (p.bind f) s b u ↔ _
  induction p generalizing s with
  | ret a => simp
  | step o next ih =>
    simp only [step_bind, exec_step, ih]
    constructor
    · rintro ⟨r, t, h, a, t', hp, hf⟩
      exact ⟨a, t', ⟨r, t, h, hp⟩, hf⟩
    · rintro ⟨a, t', ⟨r, t, h, hp⟩, hf⟩
      exact ⟨r, t, h, a, t', hp, hf⟩

theorem exec_call_bind {o : Op} {f : Res o → Program Op Res β} {b : β} :
    Exec run (Program.call o >>= f) s b u ↔ ∃ r t, run o s r t ∧ Exec run (f r) t b u :=
  exec_step

/-- An operation that can only come to one thing. -/
theorem exec_call_bind_of {o : Op} {f : Res o → Program Op Res β} {b : β} {r : Res o}
    (hrun : ∀ r' t', run o s r' t' ↔ r' = r ∧ t' = t) :
    Exec run (Program.call o >>= f) s b u ↔ Exec run (f r) t b u := by
  rw [exec_call_bind]
  constructor
  · rintro ⟨r', t', h, hrest⟩
    obtain ⟨rfl, rfl⟩ := (hrun r' t').mp h
    exact hrest
  · exact fun hrest => ⟨r, t, (hrun r t).mpr ⟨rfl, rfl⟩, hrest⟩

/-- More results make more executions. -/
theorem Exec.mono {run' : ∀ o, σ → Res o → σ → Prop} {p : Program Op Res α} {a : α}
    (hrun : ∀ o s r t, run o s r t → run' o s r t) (h : Exec run p s a t) : Exec run' p s a t := by
  induction h with
  | ret a s => exact .ret a s
  | step h _ ih => exact .step (hrun _ _ _ _ h) ih

@[simp] theorem exec_call {o : Op} {r : Res o} :
    Exec run (Program.call o) s r t ↔ run o s r t := by
  simp [call, exec_step]

end

/-! ## A program among others, from its own point of view -/

/-- One operation of a program while others act. What they have made of the state before its
`k`-th operation is `others k`, and the program keeps a log of what it did. -/
def amid {σ : Type*} (others : ℕ → σ → σ → Prop) (run : ℕ → ∀ o, σ → Res o → σ → Prop) (o : Op)
    (s : List (Σ o, Res o) × σ) (r : Res o) (t : List (Σ o, Res o) × σ) : Prop :=
  t.1 = s.1 ++ [⟨o, r⟩] ∧ ∃ u, others s.1.length s.2 u ∧ run s.1.length o u r t.2

/-! ## Part of a program alone -/

/-- The program `p` from `s` on, by operations in `ok`, up to where `p'` is left to run in
`t`. -/
inductive Path {σ : Type*} (run : ∀ o, σ → Res o → σ → Prop) (ok : Op → Prop) :
    Program Op Res α → σ → Program Op Res α → σ → Prop where
  | refl (p : Program Op Res α) (s : σ) : Path run ok p s p s
  | step {o : Op} {next : Res o → Program Op Res α} {p' : Program Op Res α} {s t u : σ}
      {r : Res o} (ho : ok o) (h : run o s r t) (hnext : Path run ok (next r) t p' u) :
      Path run ok (.step o next) s p' u

section

variable {σ : Type*} {run : ∀ o, σ → Res o → σ → Prop} {ok : Op → Prop} {s t u : σ}

theorem Path.trans {p p' p'' : Program Op Res α} (h : Path run ok p s p' t)
    (h' : Path run ok p' t p'' u) : Path run ok p s p'' u := by
  induction h with
  | refl => exact h'
  | step ho hrun _ ih => exact .step ho hrun (ih h')

theorem Path.bind {p p' : Program Op Res α} (f : α → Program Op Res β)
    (h : Path run ok p s p' t) : Path run ok (p >>= f) s (p' >>= f) t := by
  induction h with
  | refl => exact .refl _ _
  | step ho hrun _ ih => exact .step ho hrun ih

/-- More operations with more results make more paths. -/
theorem Path.mono {run' : ∀ o, σ → Res o → σ → Prop} {ok' : Op → Prop} {p p' : Program Op Res α}
    (hrun : ∀ o s r t, run o s r t → run' o s r t) (hok : ∀ o, ok o → ok' o)
    (h : Path run ok p s p' t) : Path run' ok' p s p' t := by
  induction h with
  | refl => exact .refl _ _
  | step ho hstep _ ih => exact .step (hok _ ho) (hrun _ _ _ _ hstep) ih

/-- A path to the end is an execution. -/
theorem Path.exec {p : Program Op Res α} {a : α} (h : Path run ok p s (.ret a) t) :
    Exec run p s a t := by
  generalize hp : (Program.ret a : Program Op Res α) = p' at h
  induction h with
  | refl =>
    subst hp
    exact .ret a _
  | step ho hrun _ ih => exact .step hrun (ih hp)

/-- One operation, and what is left of its program. -/
theorem path_step_iff {o : Op} {next : Res o → Program Op Res α} {p' : Program Op Res α} :
    Path run ok (.step o next) s p' t ↔
      p' = .step o next ∧ t = s ∨ ok o ∧ ∃ r u, run o s r u ∧ Path run ok (next r) u p' t := by
  constructor
  · intro h
    cases h with
    | refl => exact .inl ⟨rfl, rfl⟩
    | step ho hrun hnext => exact .inr ⟨ho, _, _, hrun, hnext⟩
  · rintro (⟨rfl, rfl⟩ | ⟨ho, r, u, hrun, hnext⟩)
    · exact .refl _ _
    · exact .step ho hrun hnext

/-- A sequence that was left somewhere was left in its first part or in its second. -/
theorem Path.of_bind {p : Program Op Res α} {f : α → Program Op Res β} {q : Program Op Res β}
    (h : Path run ok (p >>= f) s q t) :
    (∃ p', q = p' >>= f ∧ Path run ok p s p' t) ∨
      ∃ a u, Path run ok p s (.ret a) u ∧ Path run ok (f a) u q t := by
  induction p generalizing s with
  | ret a => exact .inr ⟨a, s, .refl _ _, h⟩
  | step o next ih =>
    rcases path_step_iff.mp (show Path run ok (.step o fun r => (next r).bind f) s q t from h) with
      ⟨rfl, rfl⟩ | ⟨ho, r, u, hrun, hnext⟩
    · exact .inl ⟨.step o next, rfl, .refl _ _⟩
    · rcases ih r hnext with ⟨p', rfl, hpath⟩ | ⟨a, v, hpath, hrest⟩
      · exact .inl ⟨p', rfl, .step ho hrun hpath⟩
      · exact .inr ⟨a, v, .step ho hrun hpath, hrest⟩

/-- What is left of a program still waits only where it may. -/
theorem AtWaits.of_path {P : Program Op Res α → Prop} {p p' : Program Op Res α}
    (hp : AtWaits waits P p) (h : Path run ok p s p' t) : AtWaits waits P p' := by
  induction h with
  | refl => exact hp
  | step _ _ _ ih => exact ih (hp.2 _)

/-- A sequence that was left at an operation its first part never calls has run that part
through. -/
theorem Path.through_bind {p : Program Op Res α} {f : α → Program Op Res β} {o : Op}
    {next : Res o → Program Op Res β} (hp : AtWaits waits (fun _ => False) p) (ho : waits o)
    (h : Path run ok (p >>= f) s (.step o next) t) :
    ∃ a u, Path run ok p s (.ret a) u ∧ Path run ok (f a) u (.step o next) t := by
  rcases h.of_bind with ⟨p', hq, hpath⟩ | hthrough
  · cases p' with
    | ret a => exact ⟨a, t, hpath, by rw [hq]; exact .refl _ _⟩
    | step o' next' =>
      have hsame : o = o' := by
        have hstep : Program.step o next = .step o' fun r => (next' r).bind f := hq
        injection hstep
      exact absurd (hsame ▸ ho) (hp.of_path hpath).1
  · exact hthrough

/-- A program that never waits runs through, if its operations always have a result. -/
theorem AtWaits.exists_path (hrun : ∀ o, ¬ waits o → ∀ s, ∃ r t, run o s r t)
    {p : Program Op Res α} (hp : AtWaits waits (fun _ => False) p) (s : σ) :
    ∃ a t, Path run (fun o => ¬ waits o) p s (.ret a) t := by
  induction p generalizing s with
  | ret a => exact ⟨a, s, .refl _ _⟩
  | step o next ih =>
    have ho : ¬ waits o := hp.1
    obtain ⟨r, t, hr⟩ := hrun o ho s
    obtain ⟨a, u, hpath⟩ := ih r (hp.2 r) t
    exact ⟨a, u, .step ho hr hpath⟩

end

end Program
