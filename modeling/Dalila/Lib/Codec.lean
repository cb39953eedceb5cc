import Mathlib.Data.Nat.Basic
import Mathlib.Data.UInt
import Mathlib.Tactic.Common
import Mathlib.Tactic.Ring

/-!
# Compact binary codecs

Values laid out one after another, without padding, names or types: numbers as varints,
sequences behind their length, the cases of an enumeration behind their index. A codec reads
back what it wrote from the front of any bytes, so codecs can be put one after another.
-/

/-- What goes over the wire. -/
abbrev Bytes := List UInt8

/-- How the values of one type are laid out. A value that is too long to be written has no
encoding. -/
structure Codec (α : Type) where
  encode : α → Option Bytes
  decode : Bytes → Option (α × Bytes)
  decode_append : ∀ {a : α} {bytes : Bytes}, encode a = some bytes → ∀ rest,
    decode (bytes ++ rest) = some (a, rest)

namespace Codec

variable {α β : Type}

/-- `a` can be written, in at least `lo` and at most `hi` bytes. -/
def Spans (c : Codec α) (lo hi : ℕ) (a : α) : Prop :=
  ∃ bytes, c.encode a = some bytes ∧ lo ≤ bytes.length ∧ bytes.length ≤ hi

lemma Spans.mono {c : Codec α} {lo lo' hi hi' : ℕ} {a : α} (h : c.Spans lo hi a)
    (hlo : lo' ≤ lo) (hhi : hi ≤ hi') : c.Spans lo' hi' a := by
  obtain ⟨bytes, henc, hle, hge⟩ := h
  exact ⟨bytes, henc, by omega, by omega⟩

/-! ## One after another -/

/-- Two values, one after the other. -/
def pair (c : Codec α) (d : Codec β) : Codec (α × β) where
  encode x := (c.encode x.1).bind fun front => (d.encode x.2).map fun back => front ++ back
  decode bytes :=
    (c.decode bytes).bind fun x => (d.decode x.2).map fun y => ((x.1, y.1), y.2)
  decode_append := by
    intro x bytes h rest
    simp only [Option.bind_eq_some_iff, Option.map_eq_some_iff] at h
    obtain ⟨front, hfront, back, hback, rfl⟩ := h
    rw [List.append_assoc, c.decode_append hfront, Option.bind_some, d.decode_append hback]
    rfl

lemma decode_pair (c : Codec α) (d : Codec β) (bytes : Bytes) :
    (c.pair d).decode bytes =
      (c.decode bytes).bind fun x => (d.decode x.2).map fun y => ((x.1, y.1), y.2) := rfl

/-- A pair is encoded if both its parts are. -/
lemma encode_pair_eq_some {c : Codec α} {d : Codec β} {a : α} {b : β} {bytes : Bytes} :
    (c.pair d).encode (a, b) = some bytes ↔
      ∃ front back, c.encode a = some front ∧ d.encode b = some back ∧ bytes = front ++ back := by
  show ((c.encode a).bind fun front => (d.encode b).map fun back => front ++ back) = some bytes ↔ _
  simp only [Option.bind_eq_some_iff, Option.map_eq_some_iff]
  constructor
  · rintro ⟨front, hfront, back, hback, heq⟩
    exact ⟨front, back, hfront, hback, heq.symm⟩
  · rintro ⟨front, back, hfront, hback, heq⟩
    exact ⟨front, hfront, back, hback, heq.symm⟩

/-- Bounds add up. -/
lemma Spans.pair {c : Codec α} {d : Codec β} {a : α} {b : β} {lo lo' hi hi' : ℕ}
    (ha : c.Spans lo hi a) (hb : d.Spans lo' hi' b) :
    (c.pair d).Spans (lo + lo') (hi + hi') (a, b) := by
  obtain ⟨front, hfront, hlo, hhi⟩ := ha
  obtain ⟨back, hback, hlo', hhi'⟩ := hb
  refine ⟨front ++ back, encode_pair_eq_some.mpr ⟨front, back, hfront, hback, rfl⟩, ?_, ?_⟩
  · rw [List.length_append]
    omega
  · rw [List.length_append]
    omega

/-! ## In other words -/

/-- The values of `β` as those values of `α` that stand for one. -/
def refine (c : Codec α) (view : β → α) (make : α → Option β)
    (make_view : ∀ b, make (view b) = some b) : Codec β where
  encode b := c.encode (view b)
  decode bytes := (c.decode bytes).bind fun x => (make x.1).map fun b => (b, x.2)
  decode_append := by
    intro b bytes h rest
    rw [c.decode_append h, Option.bind_some, make_view]
    rfl

section

variable {c : Codec α} {view : β → α} {make : α → Option β}
  {make_view : ∀ b, make (view b) = some b}

@[simp] lemma encode_refine (b : β) :
    (c.refine view make make_view).encode b = c.encode (view b) := rfl

lemma decode_refine (bytes : Bytes) :
    (c.refine view make make_view).decode bytes =
      (c.decode bytes).bind fun x => (make x.1).map fun b => (b, x.2) := rfl

lemma Spans.refine {lo hi : ℕ} {b : β} (h : c.Spans lo hi (view b)) :
    (c.refine view make make_view).Spans lo hi b := h

end

/-! ## Bytes -/

/-- One byte, as it is. -/
def byte : Codec UInt8 where
  encode b := some [b]
  decode
    | [] => none
    | b :: rest => some (b, rest)
  decode_append := by
    intro b bytes h rest
    obtain rfl := Option.some.inj h
    rfl

@[simp] lemma encode_byte (b : UInt8) : byte.encode b = some [b] := rfl

@[simp] lemma decode_byte_cons (b : UInt8) (rest : Bytes) :
    byte.decode (b :: rest) = some (b, rest) := rfl

@[simp] lemma decode_byte_nil : byte.decode [] = none := rfl

lemma spans_byte (b : UInt8) : byte.Spans 1 1 b := ⟨[b], rfl, le_refl _, le_refl _⟩

/-- As many bytes as everybody knows there are. -/
def fixed (n : ℕ) : Codec (Vector UInt8 n) where
  encode v := some v.toList
  decode bytes :=
    if h : (bytes.take n).length = n then
      some (⟨(bytes.take n).toArray, by simpa using h⟩, bytes.drop n)
    else none
  decode_append := by
    intro v bytes h rest
    obtain rfl := Option.some.inj h
    have hlen : v.toList.length = n := v.length_toList
    have htake : (v.toList ++ rest).take n = v.toList := List.take_left' hlen
    have hdrop : (v.toList ++ rest).drop n = rest := List.drop_left' hlen
    rw [dif_pos (by rw [htake, hlen])]
    simp only [htake, hdrop]
    rfl

lemma spans_fixed {n : ℕ} (v : Vector UInt8 n) : (fixed n).Spans n n v :=
  ⟨v.toList, rfl, by simp, by simp⟩

/-- A zero or a one, and nothing else. -/
def bool : Codec Bool :=
  byte.refine (fun b => if b then 1 else 0)
    (fun b => if b = 0 then some false else if b = 1 then some true else none)
    (by intro b; cases b <;> rfl)

lemma spans_bool (b : Bool) : bool.Spans 1 1 b := Spans.refine (spans_byte _)

/-! ## Varints -/

/-- Seven bits a byte, the low ones first, in at most so many bytes. Every byte but the last
has its top bit set. -/
def putVarint : ℕ → ℕ → Bytes
  | 0, _ => []
  | n + 1, value =>
    if value < 128 then [UInt8.ofNat value]
    else UInt8.ofNat (value % 128 + 128) :: putVarint n (value / 128)

/-- The shortest form is not asked for. If all the bytes are used, the last is at most
`last`. -/
def takeVarint (last : ℕ) : ℕ → Bytes → Option (ℕ × Bytes)
  | 0, _ => none
  | _ + 1, [] => none
  | n + 1, b :: rest =>
    if b.toNat < 128 then
      if n = 0 ∧ last < b.toNat then none else some (b.toNat, rest)
    else
      (takeVarint last n rest).map fun x => (b.toNat - 128 + 128 * x.1, x.2)

lemma toNat_ofNat_of_lt {n : ℕ} (h : n < 256) : (UInt8.ofNat n).toNat = n := by
  rw [UInt8.toNat_ofNat']
  exact Nat.mod_eq_of_lt h

/-- What was put is taken back. -/
lemma takeVarint_putVarint {last : ℕ} (hlast : last < 128) (n : ℕ) {value : ℕ}
    (hvalue : value < 128 ^ n * (last + 1)) (rest : Bytes) :
    takeVarint last (n + 1) (putVarint (n + 1) value ++ rest) = some (value, rest) := by
  induction n generalizing value with
  | zero =>
    have hsmall : value < 128 := by omega
    have hbyte := toNat_ofNat_of_lt (show value < 256 by omega)
    have hfits : ¬ last < value := by omega
    simp [putVarint, takeVarint, hsmall, hbyte, hfits]
  | succ n ih =>
    unfold putVarint
    split_ifs with hsmall
    · have hbyte := toNat_ofNat_of_lt (show value < 256 by omega)
      simp [takeVarint, hsmall, hbyte]
    · have hbyte := toNat_ofNat_of_lt (show value % 128 + 128 < 256 by omega)
      have hnext : value / 128 < 128 ^ n * (last + 1) := by
        rw [Nat.div_lt_iff_lt_mul (by omega)]
        calc value < 128 ^ (n + 1) * (last + 1) := hvalue
          _ = 128 ^ n * (last + 1) * 128 := by ring
      rw [List.cons_append, takeVarint, hbyte, if_neg (by omega), ih hnext, Option.map_some]
      congr 2
      omega

/-- The low bits are in the first byte. -/
lemma takeVarint_mod {last n value : ℕ} {b : UInt8} {bytes rest : Bytes}
    (h : takeVarint last (n + 1) (b :: bytes) = some (value, rest)) :
    value % 128 = b.toNat % 128 := by
  have hbyte : b.toNat < 256 := b.toNat_lt
  unfold takeVarint at h
  split_ifs at h with hlow hlast
  · obtain ⟨rfl, rfl⟩ := Prod.mk.inj (Option.some.inj h)
    rfl
  · obtain ⟨x, _, hx⟩ := Option.map_eq_some_iff.mp h
    obtain ⟨rfl, rfl⟩ := Prod.mk.inj hx
    omega

/-- A varint is no longer than it may be. -/
lemma length_putVarint_le (n value : ℕ) : (putVarint n value).length ≤ n := by
  induction n generalizing value with
  | zero => exact Nat.le_refl 0
  | succ n ih =>
    unfold putVarint
    split_ifs
    · exact Nat.succ_le_succ (Nat.zero_le n)
    · have hle := ih (value / 128)
      rw [List.length_cons]
      omega

lemma putVarint_of_lt (n : ℕ) {value : ℕ} (h : value < 128) :
    putVarint (n + 1) value = [UInt8.ofNat value] := if_pos h

/-- Where there is room for the whole number, more room changes nothing. -/
lemma putVarint_add (n m : ℕ) {value : ℕ} (hvalue : value < 128 ^ n) (hn : 0 < n) :
    putVarint (n + m) value = putVarint n value := by
  induction n generalizing value with
  | zero => exact absurd hn (lt_irrefl 0)
  | succ n ih =>
    rw [Nat.succ_add]
    unfold putVarint
    by_cases hsmall : value < 128
    · rw [if_pos hsmall, if_pos hsmall]
    · have hpos : 0 < n := by
        rcases Nat.eq_zero_or_pos n with rfl | hpos
        · omega
        · exact hpos
      have hnext : value / 128 < 128 ^ n := by
        rw [Nat.div_lt_iff_lt_mul (by omega), ← Nat.pow_succ]
        exact hvalue
      rw [if_neg hsmall, if_neg hsmall, ih hnext hpos]

/-- The greatest last byte of a number of `w` bits that takes all the bytes it may. -/
def lastByte (w : ℕ) : ℕ := 2 ^ (w - 7 * ((w - 1) / 7)) - 1

lemma lastByte_lt (w : ℕ) : lastByte w < 128 := by
  have hle : w - 7 * ((w - 1) / 7) ≤ 7 := by omega
  have hpow : 2 ^ (w - 7 * ((w - 1) / 7)) ≤ 2 ^ 7 := Nat.pow_le_pow_right (by omega) hle
  unfold lastByte
  omega

/-- The bits of `w` in groups of seven, with what is left for the last byte. -/
lemma two_pow_eq (w : ℕ) : 2 ^ w = 128 ^ ((w - 1) / 7) * (lastByte w + 1) := by
  have hpos : 0 < 2 ^ (w - 7 * ((w - 1) / 7)) := Nat.two_pow_pos _
  have hlast : lastByte w + 1 = 2 ^ (w - 7 * ((w - 1) / 7)) := by
    unfold lastByte
    omega
  have hsplit : 7 * ((w - 1) / 7) + (w - 7 * ((w - 1) / 7)) = w := by omega
  calc 2 ^ w = 2 ^ (7 * ((w - 1) / 7) + (w - 7 * ((w - 1) / 7))) := by rw [hsplit]
    _ = (2 ^ 7) ^ ((w - 1) / 7) * (lastByte w + 1) := by rw [Nat.pow_add, Nat.pow_mul, hlast]

/-- A number of `w` bits. -/
def varint (w : ℕ) : Codec ℕ where
  encode value := if value < 2 ^ w then some (putVarint ((w - 1) / 7 + 1) value) else none
  decode := takeVarint (lastByte w) ((w - 1) / 7 + 1)
  decode_append := by
    intro value bytes h rest
    split_ifs at h with hvalue
    obtain rfl := Option.some.inj h
    rw [two_pow_eq] at hvalue
    exact takeVarint_putVarint (lastByte_lt w) _ hvalue rest

lemma encode_varint {w value : ℕ} (h : value < 2 ^ w) :
    (varint w).encode value = some (putVarint ((w - 1) / 7 + 1) value) := if_pos h

lemma decode_varint (w : ℕ) (bytes : Bytes) :
    (varint w).decode bytes = takeVarint (lastByte w) ((w - 1) / 7 + 1) bytes := rfl

/-- A small number is one byte. -/
lemma encode_varint_of_lt {w value : ℕ} (hw : value < 2 ^ w) (h : value < 128) :
    (varint w).encode value = some [UInt8.ofNat value] := by
  rw [encode_varint hw, putVarint_of_lt _ h]

lemma decode_varint_cons {w : ℕ} (hw : 7 < w) {b : UInt8} (h : b.toNat < 128) (rest : Bytes) :
    (varint w).decode (b :: rest) = some (b.toNat, rest) := by
  have hroom : (w - 1) / 7 ≠ 0 := by omega
  rw [decode_varint, takeVarint, if_pos h, if_neg (by simp [hroom])]

lemma spans_varint {w value : ℕ} (h : value < 2 ^ w) :
    (varint w).Spans 1 ((w - 1) / 7 + 1) value := by
  refine ⟨_, encode_varint h, ?_, length_putVarint_le _ _⟩
  unfold putVarint
  split_ifs <;> simp

lemma spans_varint_of_lt {w value : ℕ} (hw : value < 2 ^ w) (h : value < 128) :
    (varint w).Spans 1 1 value :=
  ⟨_, encode_varint_of_lt hw h, by simp, by simp⟩

def u16 : Codec UInt16 :=
  (varint 16).refine UInt16.toNat (fun n => some (UInt16.ofNat n)) (by simp)

def u32 : Codec UInt32 :=
  (varint 32).refine UInt32.toNat (fun n => some (UInt32.ofNat n)) (by simp)

lemma spans_u16 (value : UInt16) : u16.Spans 1 3 value :=
  Spans.refine (spans_varint value.toNat_lt)

lemma spans_u32 (value : UInt32) : u32.Spans 1 5 value :=
  Spans.refine (spans_varint value.toNat_lt)

/-! ## Sequences -/

/-- The values of a list, one after another. -/
def encodeAll (c : Codec α) : List α → Option Bytes
  | [] => some []
  | a :: as => (c.encode a).bind fun front => (c.encodeAll as).map fun back => front ++ back

def decodeMany (c : Codec α) : ℕ → Bytes → Option (List α × Bytes)
  | 0, bytes => some ([], bytes)
  | n + 1, bytes =>
    (c.decode bytes).bind fun x => (c.decodeMany n x.2).map fun y => (x.1 :: y.1, y.2)

/-- A number of values is read back from the front. -/
lemma decodeMany_append (c : Codec α) {as : List α} {bytes : Bytes}
    (h : c.encodeAll as = some bytes) (rest : Bytes) :
    c.decodeMany as.length (bytes ++ rest) = some (as, rest) := by
  induction as generalizing bytes with
  | nil =>
    obtain rfl := Option.some.inj h
    rfl
  | cons a as ih =>
    simp only [encodeAll, Option.bind_eq_some_iff, Option.map_eq_some_iff] at h
    obtain ⟨front, hfront, back, hback, rfl⟩ := h
    rw [List.append_assoc, List.length_cons, decodeMany, c.decode_append hfront, Option.bind_some,
      ih hback]
    rfl

lemma length_of_decodeMany (c : Codec α) {n : ℕ} {bytes rest : Bytes} {as : List α}
    (h : c.decodeMany n bytes = some (as, rest)) : as.length = n := by
  induction n generalizing bytes rest as with
  | zero =>
    rw [← (Prod.mk.inj (Option.some.inj h)).1]
    rfl
  | succ n ih =>
    simp only [decodeMany, Option.bind_eq_some_iff, Option.map_eq_some_iff] at h
    obtain ⟨_, _, _, hrest, heq⟩ := h
    rw [← (Prod.mk.inj heq).1, List.length_cons, ih hrest]

lemma encodeAll_byte (bytes : Bytes) : byte.encodeAll bytes = some bytes := by
  induction bytes with
  | nil => rfl
  | cons b bytes ih => simp [encodeAll, ih]

/-- As many values as their number says, one after another. -/
def seq (c : Codec α) : Codec (List α) where
  encode as :=
    ((varint 64).encode as.length).bind fun len => (c.encodeAll as).map fun back => len ++ back
  decode bytes := ((varint 64).decode bytes).bind fun x => c.decodeMany x.1 x.2
  decode_append := by
    intro as bytes h rest
    simp only [Option.bind_eq_some_iff, Option.map_eq_some_iff] at h
    obtain ⟨len, hlen, back, hback, rfl⟩ := h
    rw [List.append_assoc, (varint 64).decode_append hlen, Option.bind_some]
    exact c.decodeMany_append hback rest

lemma decode_seq (c : Codec α) (bytes : Bytes) :
    c.seq.decode bytes = ((varint 64).decode bytes).bind fun x => c.decodeMany x.1 x.2 := rfl

/-- A sequence has at least its length to say. -/
lemma decode_seq_nil (c : Codec α) : c.seq.decode [] = none := rfl

lemma spans_encodeAll {c : Codec α} {lo hi : ℕ} {as : List α}
    (h : ∀ a ∈ as, c.Spans lo hi a) :
    ∃ bytes, c.encodeAll as = some bytes ∧ as.length * lo ≤ bytes.length ∧
      bytes.length ≤ as.length * hi := by
  induction as with
  | nil => exact ⟨[], rfl, by simp, by simp⟩
  | cons a as ih =>
    obtain ⟨front, hfront, hlo, hhi⟩ := h a (by simp)
    obtain ⟨back, hback, hlo', hhi'⟩ := ih fun b hb => h b (by simp [hb])
    refine ⟨front ++ back, by simp [encodeAll, hfront, hback], ?_, ?_⟩
    · rw [List.length_cons, List.length_append, Nat.add_mul]
      omega
    · rw [List.length_cons, List.length_append, Nat.add_mul]
      omega

/-- The length, and the elements' bounds times their number. -/
lemma Spans.seq {c : Codec α} {lo hi lo' hi' : ℕ} {as : List α}
    (hlen : (varint 64).Spans lo' hi' as.length) (h : ∀ a ∈ as, c.Spans lo hi a) :
    c.seq.Spans (lo' + as.length * lo) (hi' + as.length * hi) as := by
  obtain ⟨front, hfront, hlo, hhi⟩ := hlen
  obtain ⟨back, hback, hlo', hhi'⟩ := spans_encodeAll h
  refine ⟨front ++ back, ?_, ?_, ?_⟩
  · show ((varint 64).encode as.length).bind _ = _
    simp [hfront, hback]
  · rw [List.length_append]
    omega
  · rw [List.length_append]
    omega

/-- Bytes behind their number, of which there must be `n`. -/
def sized (n : ℕ) : Codec (Vector UInt8 n) :=
  byte.seq.refine Vector.toList
    (fun bytes => if h : bytes.length = n then some ⟨bytes.toArray, by simpa using h⟩ else none)
    (by
      intro v
      rw [dif_pos v.length_toList]
      rfl)

lemma encode_sized {n : ℕ} (hn : n < 128) (v : Vector UInt8 n) :
    (sized n).encode v = some (UInt8.ofNat n :: v.toList) := by
  show ((varint 64).encode v.toList.length).bind _ = _
  rw [v.length_toList, encode_varint_of_lt (by omega) hn, encodeAll_byte]
  rfl

/-- Any other number is refused. -/
lemma decode_sized_of_ne {n len : ℕ} (hne : len ≠ n) {bytes rest : Bytes}
    (h : (varint 64).decode bytes = some (len, rest)) : (sized n).decode bytes = none := by
  rw [sized, decode_refine, decode_seq, h, Option.bind_some]
  cases hbytes : byte.decodeMany len rest with
  | none => rfl
  | some y =>
    have hlen : y.1.length ≠ n := by rwa [length_of_decodeMany byte hbytes]
    rw [Option.bind_some]
    simp [hlen]

lemma spans_sized {n : ℕ} (hn : n < 128) (v : Vector UInt8 n) :
    (sized n).Spans (1 + n) (1 + n) v := by
  have hlen : v.toList.length = n := v.length_toList
  have hspans : byte.seq.Spans (1 + v.toList.length * 1) (1 + v.toList.length * 1) v.toList := by
    refine Spans.seq (spans_varint_of_lt ?_ ?_) fun b _ => spans_byte b
    · omega
    · omega
  rw [hlen, Nat.mul_one] at hspans
  exact Spans.refine hspans

/-- The bytes of a string, behind their number. -/
def text : Codec String :=
  byte.seq.refine (fun s => s.toByteArray.data.toList)
    (fun bytes =>
      if h : (ByteArray.mk bytes.toArray).validateUTF8 = true then
        some (.ofByteArray ⟨bytes.toArray⟩ (ByteArray.validateUTF8_eq_true_iff.mp h))
      else none)
    (by
      intro s
      rw [dif_pos (ByteArray.validateUTF8_eq_true_iff.mpr s.isValidUTF8)])

/-- A text is its bytes behind their number. -/
lemma spans_text {s : String} (h : s.utf8ByteSize < 128) :
    text.Spans (1 + s.utf8ByteSize) (1 + s.utf8ByteSize) s := by
  have hlen : s.toByteArray.data.toList.length = s.utf8ByteSize := by
    rw [Array.length_toList]
    exact String.size_toByteArray
  have hspans : byte.seq.Spans (1 + s.utf8ByteSize * 1) (1 + s.utf8ByteSize * 1)
      s.toByteArray.data.toList := by
    have hcount : (varint 64).Spans 1 1 s.toByteArray.data.toList.length := by
      rw [hlen]
      exact spans_varint_of_lt (by omega) h
    have hseq : byte.seq.Spans _ _ s.toByteArray.data.toList :=
      Spans.seq hcount fun b _ => spans_byte b
    rwa [hlen] at hseq
  rw [Nat.mul_one] at hspans
  exact Spans.refine hspans

/-! ## Cases -/

/-- One case of an enumeration, behind its index. -/
def variant (index : ℕ) (body : Option Bytes) : Option Bytes :=
  ((varint 32).encode index).bind fun front => body.map fun back => front ++ back

lemma variant_eq_some {index : ℕ} (hindex : index < 128) {body : Option Bytes} {bytes : Bytes} :
    variant index body = some bytes ↔
      ∃ back, body = some back ∧ bytes = UInt8.ofNat index :: back := by
  rw [variant, encode_varint_of_lt (by omega) hindex, Option.bind_some, Option.map_eq_some_iff]
  constructor
  · rintro ⟨back, hback, heq⟩
    exact ⟨back, hback, heq.symm⟩
  · rintro ⟨back, hback, heq⟩
    exact ⟨back, hback, heq.symm⟩

/-- The index of a case takes one byte. -/
lemma Spans.variant {c : Codec α} {d : Codec β} {a : α} {b : β} {index lo hi : ℕ}
    (hindex : index < 128) (henc : d.encode b = Codec.variant index (c.encode a))
    (h : c.Spans lo hi a) : d.Spans (1 + lo) (1 + hi) b := by
  obtain ⟨back, hback, hlo, hhi⟩ := h
  refine ⟨UInt8.ofNat index :: back, ?_, ?_, ?_⟩
  · rw [henc]
    exact (variant_eq_some hindex).mpr ⟨back, hback, rfl⟩
  · rw [List.length_cons]
    omega
  · rw [List.length_cons]
    omega

end Codec
