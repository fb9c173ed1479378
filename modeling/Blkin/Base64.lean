import Mathlib.Data.List.DropRight
import Mathlib.Data.List.Basic
import Mathlib.Tactic.IntervalCases

/-!
# Base64

`encode` writes three bytes as four characters of the alphabet, with `=` for missing
bytes at the end, and `decode` reads them back (`decode_encode`). `encodeLines` breaks
the characters of every 57 bytes into a line of their own; without its newlines it is
`encode` again (`filter_encodeLines`).
-/

namespace Base64

/-- The character of six bits. -/
def char (n : ℕ) : UInt8 :=
  if n < 26 then UInt8.ofNat (65 + n)
  else if n < 52 then UInt8.ofNat (71 + n)
  else if n < 62 then UInt8.ofNat (n - 4)
  else if n = 62 then 43
  else 47

/-- The six bits of a character. -/
def index (c : UInt8) : Option ℕ :=
  if 65 ≤ c ∧ c ≤ 90 then some (c.toNat - 65)
  else if 97 ≤ c ∧ c ≤ 122 then some (c.toNat - 71)
  else if 48 ≤ c ∧ c ≤ 57 then some (c.toNat + 4)
  else if c = 43 then some 62
  else if c = 47 then some 63
  else none

/-- `=` -/
def pad : UInt8 := 61

def newline : UInt8 := 10

/-- Base64 without line breaks. -/
def encode : List UInt8 → List UInt8
  | [] => []
  | [a] => [char (a.toNat / 4), char (a.toNat % 4 * 16), pad, pad]
  | [a, b] =>
    [char (a.toNat / 4), char (a.toNat % 4 * 16 + b.toNat / 16), char (b.toNat % 16 * 4), pad]
  | a :: b :: c :: bs =>
    char (a.toNat / 4) :: char (a.toNat % 4 * 16 + b.toNat / 16) ::
      char (b.toNat % 16 * 4 + c.toNat / 64) :: char (c.toNat % 64) :: encode bs

/-- The bytes of four characters. -/
def decodeGroup (w x y z : UInt8) : Option (List UInt8) := do
  let i ← index w
  let j ← index x
  let a := UInt8.ofNat (i * 4 + j / 16)
  if y = pad ∧ z = pad then
    some [a]
  else do
    let k ← index y
    let b := UInt8.ofNat (j % 16 * 16 + k / 4)
    if z = pad then
      some [a, b]
    else do
      let l ← index z
      some [a, b, UInt8.ofNat (k % 4 * 64 + l)]

def decode : List UInt8 → Option (List UInt8)
  | [] => some []
  | w :: x :: y :: z :: cs => do
    let bs ← decodeGroup w x y z
    let rest ← decode cs
    some (bs ++ rest)
  | _ => none

/-! ## Reading back -/

theorem index_char {n : ℕ} (hn : n < 64) : index (char n) = some n := by
  interval_cases n <;> rfl

theorem char_ne_pad {n : ℕ} (hn : n < 64) : char n ≠ pad := by
  interval_cases n <;> decide

/-- What holds of 64 characters holds of every `char n`. -/
theorem forall_char {p : UInt8 → Prop} (h : ∀ n < 64, p (char n)) (n : ℕ) : p (char n) := by
  rcases Nat.lt_or_ge n 64 with hn | hn
  · exact h n hn
  · have hlast : char n = char 63 := by
      rw [char, if_neg (by omega), if_neg (by omega), if_neg (by omega), if_neg (by omega)]
      rfl
    rw [hlast]
    exact h 63 (by decide)

theorem ofNat_bits (a : UInt8) {n : ℕ} (hn : n = a.toNat) : UInt8.ofNat n = a := by
  rw [hn, UInt8.ofNat_toNat]

theorem decodeGroup_three (a b c : UInt8) :
    decodeGroup (char (a.toNat / 4)) (char (a.toNat % 4 * 16 + b.toNat / 16))
      (char (b.toNat % 16 * 4 + c.toNat / 64)) (char (c.toNat % 64)) = some [a, b, c] := by
  have ha := a.toNat_lt
  have hb := b.toNat_lt
  have hc := c.toNat_lt
  rw [decodeGroup, index_char (by omega), index_char (by omega), index_char (by omega),
    index_char (by omega)]
  simp only [Option.bind_eq_bind, Option.bind_some, char_ne_pad (by omega : c.toNat % 64 < 64),
    and_false, if_false]
  rw [ofNat_bits a (by omega), ofNat_bits b (by omega), ofNat_bits c (by omega)]

theorem decodeGroup_two (a b : UInt8) :
    decodeGroup (char (a.toNat / 4)) (char (a.toNat % 4 * 16 + b.toNat / 16))
      (char (b.toNat % 16 * 4)) pad = some [a, b] := by
  have ha := a.toNat_lt
  have hb := b.toNat_lt
  rw [decodeGroup, index_char (by omega), index_char (by omega), index_char (by omega)]
  simp only [Option.bind_eq_bind, Option.bind_some,
    char_ne_pad (by omega : b.toNat % 16 * 4 < 64), false_and, if_false, if_true]
  rw [ofNat_bits a (by omega), ofNat_bits b (by omega)]

theorem decodeGroup_one (a : UInt8) :
    decodeGroup (char (a.toNat / 4)) (char (a.toNat % 4 * 16)) pad pad = some [a] := by
  have ha := a.toNat_lt
  rw [decodeGroup, index_char (by omega), index_char (by omega)]
  simp only [Option.bind_eq_bind, Option.bind_some, and_self, if_true]
  rw [ofNat_bits a (by omega)]

theorem decode_encode : ∀ bs, decode (encode bs) = some bs
  | [] => rfl
  | [a] => by simp [encode, decode, decodeGroup_one]
  | [a, b] => by simp [encode, decode, decodeGroup_two]
  | a :: b :: c :: bs => by
    simp [encode, decode, decodeGroup_three, decode_encode bs]

/-! ## Lines -/

/-- A line for every 57 bytes. -/
def encodeLines (bs : List UInt8) : List UInt8 :=
  if bs = [] then [] else encode (bs.take 57) ++ newline :: encodeLines (bs.drop 57)
termination_by bs.length
decreasing_by
  rename_i h
  have := List.length_pos_of_ne_nil h
  rw [List.length_drop]
  omega

theorem forall_mem_encode {p : UInt8 → Prop} (hpad : p pad) (hchar : ∀ n, p (char n)) :
    ∀ bs, ∀ c ∈ encode bs, p c
  | [] => by simp [encode]
  | [a] => by simp [encode, hpad, hchar]
  | [a, b] => by simp [encode, hpad, hchar]
  | a :: b :: c :: bs => by simpa [encode, hchar] using forall_mem_encode hpad hchar bs

theorem ne_newline_of_mem_encode (bs : List UInt8) : ∀ c ∈ encode bs, c ≠ newline :=
  forall_mem_encode (by decide)
    (forall_char fun n hn => by interval_cases n <;> decide) bs

theorem encode_append : ∀ (bs cs : List UInt8), 3 ∣ bs.length →
    encode (bs ++ cs) = encode bs ++ encode cs
  | [], cs, _ => rfl
  | [a], cs, h => by simp at h
  | [a, b], cs, h => by simp at h
  | a :: b :: c :: bs, cs, h => by
    have hbs : 3 ∣ bs.length := by
      simp only [List.length_cons] at h
      omega
    simp [encode, encode_append bs cs hbs]

theorem encode_take_drop (bs : List UInt8) :
    encode (bs.take 57) ++ encode (bs.drop 57) = encode bs := by
  rcases Nat.lt_or_ge bs.length 57 with h | h
  · simp [List.take_of_length_le h.le, List.drop_eq_nil_of_le h.le, encode]
  · rw [← encode_append _ _ (by rw [List.length_take, min_eq_left h]; decide),
      List.take_append_drop]

/-- The lines without their newlines. -/
theorem filter_encodeLines (bs : List UInt8) :
    (encodeLines bs).filter (· ≠ newline) = encode bs := by
  induction bs using encodeLines.induct with
  | case1 => simp [encodeLines, encode]
  | case2 bs hbs ih =>
    have hline : (encode (bs.take 57)).filter (· ≠ newline) = encode (bs.take 57) := by
      refine List.filter_eq_self.2 fun c hc => ?_
      simpa using ne_newline_of_mem_encode _ c hc
    rw [encodeLines, if_neg hbs, List.filter_append, hline, List.filter_cons_of_neg (by simp), ih,
      encode_take_drop]

end Base64
