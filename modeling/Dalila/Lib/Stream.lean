import Dalila.Lib.Codec

/-!
# Reading frames off a stream

A reader keeps what it has not used yet in a buffer, tries to take a frame from its front, and
asks for more bytes if there is no whole one. Where the bytes were cut does not show in what
it reads.
-/

/-- One attempt to take a frame from a buffer, and the buffer that is left. What was decided
once stays, whatever comes after. -/
structure FrameReader (α ε : Type) where
  attempt : Bytes → Except ε (Option α) × Bytes
  /-- Closed in the middle of a frame. -/
  closed : ε
  buffer_of_more : ∀ {buffer left}, attempt buffer = (.ok none, left) → left = buffer
  attempt_append : ∀ {buffer a left}, attempt buffer = (.ok (some a), left) → ∀ more,
    attempt (buffer ++ more) = (.ok (some a), left ++ more)
  error_append : ∀ {buffer e}, (attempt buffer).1 = .error e → ∀ more,
    (attempt (buffer ++ more)).1 = .error e
  length_lt : ∀ {buffer a left}, attempt buffer = (.ok (some a), left) →
    left.length < buffer.length

namespace FrameReader

variable {α ε : Type} (R : FrameReader α ε)

/-- Try, and read more until there is a frame. `chunks` are the reads to come, after which
the stream ends. (A read of nothing is how the end shows, so none of them is empty.) -/
def next : List Bytes → Bytes → Except ε (Option α) × List Bytes × Bytes
  | chunks, buffer =>
    match R.attempt buffer with
    | (.error e, left) => (.error e, chunks, left)
    | (.ok (some a), left) => (.ok (some a), chunks, left)
    | (.ok none, left) =>
      match chunks with
      | [] => (if left = [] then .ok none else .error R.closed, [], left)
      | chunk :: chunks => next chunks (left ++ chunk)

section

variable {R} {chunk : Bytes} {chunks : List Bytes} {buffer left : Bytes} {a : α} {e : ε}

lemma next_of_error (h : R.attempt buffer = (.error e, left)) :
    R.next chunks buffer = (.error e, chunks, left) := by
  unfold next
  simp only [h]

lemma next_of_frame (h : R.attempt buffer = (.ok (some a), left)) :
    R.next chunks buffer = (.ok (some a), chunks, left) := by
  unfold next
  simp only [h]

lemma next_of_end (h : R.attempt buffer = (.ok none, left)) :
    R.next [] buffer = (if buffer = [] then .ok none else .error R.closed, [], buffer) := by
  obtain rfl := R.buffer_of_more h
  unfold next
  simp only [h]

lemma next_of_more (h : R.attempt buffer = (.ok none, left)) :
    R.next (chunk :: chunks) buffer = R.next chunks (buffer ++ chunk) := by
  obtain rfl := R.buffer_of_more h
  rw [next]
  simp only [h]

end

/-- A frame leaves fewer bytes. -/
lemma length_next {chunks : List Bytes} {buffer : Bytes} {a : α} {chunks' : List Bytes}
    {buffer' : Bytes} (h : R.next chunks buffer = (.ok (some a), chunks', buffer')) :
    (buffer' ++ chunks'.flatten).length < (buffer ++ chunks.flatten).length := by
  induction chunks generalizing buffer with
  | nil =>
    rcases hattempt : R.attempt buffer with ⟨e | _ | a', left⟩
    · rw [next_of_error hattempt] at h
      exact absurd h (by simp)
    · rw [next_of_end hattempt] at h
      split_ifs at h
      · exact absurd h (by simp)
      · exact absurd h (by simp)
    · rw [next_of_frame hattempt] at h
      obtain ⟨-, rfl, rfl⟩ := Prod.mk.inj h |>.imp id Prod.mk.inj
      have hlt := R.length_lt hattempt
      simpa using hlt
  | cons chunk chunks ih =>
    rcases hattempt : R.attempt buffer with ⟨e | _ | a', left⟩
    · rw [next_of_error hattempt] at h
      exact absurd h (by simp)
    · rw [next_of_more hattempt] at h
      have hlt := ih h
      simpa [List.append_assoc] using hlt
    · rw [next_of_frame hattempt] at h
      obtain ⟨-, rfl, rfl⟩ := Prod.mk.inj h |>.imp id Prod.mk.inj
      have hlt := R.length_lt hattempt
      simp only [List.length_append]
      omega

/-- One call after another, up to the first error or the end: the frames, and how it ended. -/
def all (chunks : List Bytes) (buffer : Bytes) : List α × Except ε Unit :=
  match _h : R.next chunks buffer with
  | (.error e, _, _) => ([], .error e)
  | (.ok none, _, _) => ([], .ok ())
  | (.ok (some a), chunks', buffer') =>
    let rest := all chunks' buffer'
    (a :: rest.1, rest.2)
termination_by (buffer ++ chunks.flatten).length
decreasing_by exact R.length_next _h

/-- The frames of a stream, read where it is there as a whole. -/
def parse (bytes : Bytes) : List α × Except ε Unit :=
  match _h : R.attempt bytes with
  | (.error e, _) => ([], .error e)
  | (.ok none, _) => ([], if bytes = [] then .ok () else .error R.closed)
  | (.ok (some a), left) =>
    let rest := parse left
    (a :: rest.1, rest.2)
termination_by bytes.length
decreasing_by exact R.length_lt _h

variable {R}

lemma parse_of_error {bytes left : Bytes} {e : ε} (h : R.attempt bytes = (.error e, left)) :
    R.parse bytes = ([], .error e) := by
  rw [parse]
  split
  · next heq => simp_all
  · next heq => simp_all
  · next heq => simp_all

lemma parse_of_more {bytes left : Bytes} (h : R.attempt bytes = (.ok none, left)) :
    R.parse bytes = ([], if bytes = [] then .ok () else .error R.closed) := by
  rw [parse]
  split
  · next heq => simp_all
  · rfl
  · next heq => simp_all

lemma parse_of_frame {bytes left : Bytes} {a : α} (h : R.attempt bytes = (.ok (some a), left)) :
    R.parse bytes = (a :: (R.parse left).1, (R.parse left).2) := by
  rw [parse]
  split
  · next heq => simp_all
  · next heq => simp_all
  · next heq => simp_all

/-- A call reads what is at the front of the whole stream, and leaves what is behind it. -/
lemma parse_eq_next (chunks : List Bytes) (buffer : Bytes) :
    R.parse (buffer ++ chunks.flatten) =
      match R.next chunks buffer with
      | (.error e, _, _) => ([], .error e)
      | (.ok none, _, _) => ([], .ok ())
      | (.ok (some a), chunks', buffer') =>
        (a :: (R.parse (buffer' ++ chunks'.flatten)).1,
          (R.parse (buffer' ++ chunks'.flatten)).2) := by
  induction chunks generalizing buffer with
  | nil =>
    rw [List.flatten_nil, List.append_nil]
    rcases hattempt : R.attempt buffer with ⟨e | _ | a, left⟩
    · rw [next_of_error hattempt, parse_of_error hattempt]
    · rw [next_of_end hattempt, parse_of_more hattempt]
      by_cases hempty : buffer = []
      · rw [if_pos hempty, if_pos hempty]
      · rw [if_neg hempty, if_neg hempty]
    · rw [next_of_frame hattempt, parse_of_frame hattempt]
      simp
  | cons chunk chunks ih =>
    rw [List.flatten_cons]
    rcases hattempt : R.attempt buffer with ⟨e | _ | a, left⟩
    · have herror : (R.attempt (buffer ++ (chunk ++ chunks.flatten))).1 = .error e :=
        R.error_append (by rw [hattempt]) _
      have hwhole : R.attempt (buffer ++ (chunk ++ chunks.flatten)) =
          (.error e, (R.attempt (buffer ++ (chunk ++ chunks.flatten))).2) := by
        rw [← herror]
      rw [next_of_error hattempt, parse_of_error hwhole]
    · rw [next_of_more hattempt, ← List.append_assoc]
      exact ih (buffer ++ chunk)
    · have hwhole := R.attempt_append hattempt (chunk ++ chunks.flatten)
      rw [next_of_frame hattempt, parse_of_frame hwhole]
      rfl

/-- What a call reads is at the front of the stream, however it goes on. -/
theorem attempt_of_next {chunks chunks' : List Bytes} {buffer buffer' : Bytes} {a : α}
    (h : R.next chunks buffer = (.ok (some a), chunks', buffer')) (more : Bytes) :
    ∃ left, R.attempt (buffer ++ chunks.flatten ++ more) = (.ok (some a), left) := by
  induction chunks generalizing buffer with
  | nil =>
    rw [List.flatten_nil, List.append_nil]
    rcases hattempt : R.attempt buffer with ⟨e | _ | a', left⟩
    · rw [next_of_error hattempt] at h
      exact absurd h (by simp)
    · rw [next_of_end hattempt] at h
      split_ifs at h
      · exact absurd h (by simp)
      · exact absurd h (by simp)
    · rw [next_of_frame hattempt] at h
      obtain rfl := Option.some.inj (Except.ok.inj (Prod.mk.inj h).1)
      exact ⟨_, R.attempt_append hattempt more⟩
  | cons chunk chunks ih =>
    rw [List.flatten_cons]
    rcases hattempt : R.attempt buffer with ⟨e | _ | a', left⟩
    · rw [next_of_error hattempt] at h
      exact absurd h (by simp)
    · rw [next_of_more hattempt] at h
      rw [← List.append_assoc buffer]
      exact ih h
    · rw [next_of_frame hattempt] at h
      obtain rfl := Option.some.inj (Except.ok.inj (Prod.mk.inj h).1)
      rw [List.append_assoc]
      exact ⟨_, R.attempt_append hattempt _⟩

/-- However the bytes arrive, what is read is what the whole stream holds. -/
theorem all_eq_parse (chunks : List Bytes) (buffer : Bytes) :
    R.all chunks buffer = R.parse (buffer ++ chunks.flatten) := by
  induction hlen : (buffer ++ chunks.flatten).length using Nat.strongRecOn
    generalizing chunks buffer with
  | ind n ih =>
    rw [parse_eq_next, all]
    rcases hnext : R.next chunks buffer with ⟨e | _ | a, chunks', buffer'⟩
    · rfl
    · rfl
    · have hlt := R.length_next hnext
      have hrest := ih _ (hlen ▸ hlt) chunks' buffer' rfl
      simp only [hrest]

end FrameReader
