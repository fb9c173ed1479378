import Mathlib.Data.List.Basic
import Mathlib.Algebra.Order.Ring.Nat
import Mathlib.Tactic.IntervalCases

/-!
# Decimal texts

The text of a natural number in ASCII, most significant digit first and without leading
zeros, and its value. Cutting the last three digits off a text of a number of at least
`1000` divides the number by `1000` (`take_text`); nothing is left of a smaller one.
-/

namespace Decimal

/-- The byte of a digit. -/
def digit (d : ℕ) : UInt8 :=
  UInt8.ofNat (48 + d)

/-- The decimal text of `n`. -/
def text (n : ℕ) : List UInt8 :=
  (Nat.toDigits 10 n).map fun c => UInt8.ofNat c.toNat

def isDigit (b : UInt8) : Bool :=
  48 ≤ b && b ≤ 57

/-- The number a list of digits stands for. -/
def valueOf (bs : List UInt8) : ℕ :=
  bs.foldl (fun n b => 10 * n + (b.toNat - 48)) 0

/-- The value of a decimal text; leading zeros are fine, no digits are not. -/
def value (bs : List UInt8) : Option ℕ :=
  if bs ≠ [] ∧ bs.all isDigit then some (valueOf bs) else none

theorem digitChar_byte {d : ℕ} (hd : d < 10) : UInt8.ofNat d.digitChar.toNat = digit d := by
  interval_cases d <;> rfl

theorem toNat_digit {d : ℕ} (hd : d < 10) : (digit d).toNat = 48 + d := by
  rw [digit, UInt8.toNat_ofNat']
  omega

theorem isDigit_digit {d : ℕ} (hd : d < 10) : isDigit (digit d) = true := by
  interval_cases d <;> rfl

theorem text_of_lt {n : ℕ} (hn : n < 10) : text n = [digit n] := by
  simp [text, Nat.toDigits_of_lt_base hn, digitChar_byte hn]

theorem text_of_le {n : ℕ} (hn : 10 ≤ n) : text n = text (n / 10) ++ [digit (n % 10)] := by
  have hlt : n % 10 < 10 := Nat.mod_lt _ (by decide)
  simp [text, Nat.toDigits_of_base_le (by decide : 1 < 10) hn, digitChar_byte hlt]

/-- A text is one digit, or a shorter text and a digit. -/
theorem text_rec {P : ℕ → Prop} (one : ∀ n, n < 10 → P n)
    (more : ∀ n, 10 ≤ n → P (n / 10) → P n) (n : ℕ) : P n := by
  induction n using Nat.strong_induction_on with
  | _ n ih =>
    rcases Nat.lt_or_ge n 10 with hn | hn
    · exact one n hn
    · exact more n hn (ih (n / 10) (by omega))

theorem text_ne_nil (n : ℕ) : text n ≠ [] := by
  rcases Nat.lt_or_ge n 10 with hn | hn
  · simp [text_of_lt hn]
  · simp [text_of_le hn]

theorem isDigit_of_mem_text {b : UInt8} (n : ℕ) : b ∈ text n → isDigit b = true := by
  induction n using text_rec with
  | one n hn =>
    intro hb
    rw [text_of_lt hn, List.mem_singleton] at hb
    rw [hb, isDigit_digit hn]
  | more n hn ih =>
    intro hb
    rw [text_of_le hn, List.mem_append, List.mem_singleton] at hb
    rcases hb with hb | rfl
    · exact ih hb
    · exact isDigit_digit (Nat.mod_lt _ (by decide))

theorem valueOf_text (n : ℕ) : valueOf (text n) = n := by
  induction n using text_rec with
  | one n hn =>
    simp only [text_of_lt hn, valueOf, List.foldl_cons, List.foldl_nil, toNat_digit hn]
    omega
  | more n hn ih =>
    have hlt : n % 10 < 10 := Nat.mod_lt _ (by decide)
    rw [valueOf] at ih
    rw [text_of_le hn, valueOf, List.foldl_append, ih, List.foldl_cons, List.foldl_nil,
      toNat_digit hlt]
    omega

theorem value_text (n : ℕ) : value (text n) = some n := by
  rw [value, if_pos, valueOf_text]
  exact ⟨text_ne_nil n, List.all_eq_true.2 fun b hb => isDigit_of_mem_text n hb⟩

theorem length_text_of_lt {n : ℕ} (hn : n < 1000) : (text n).length ≤ 3 := by
  rcases Nat.lt_or_ge n 10 with h₁ | h₁
  · simp [text_of_lt h₁]
  rcases Nat.lt_or_ge (n / 10) 10 with h₂ | h₂
  · simp [text_of_le h₁, text_of_lt h₂]
  · have h₃ : n / 10 / 10 < 10 := by omega
    simp [text_of_le h₁, text_of_le h₂, text_of_lt h₃]

theorem text_thousand {n : ℕ} (hn : 1000 ≤ n) :
    text n = text (n / 1000) ++ [digit (n / 100 % 10), digit (n / 10 % 10), digit (n % 10)] := by
  have h₂ : 10 ≤ n / 10 := by omega
  have h₃ : 10 ≤ n / 10 / 10 := by omega
  rw [text_of_le (by omega : 10 ≤ n), text_of_le h₂, text_of_le h₃]
  simp [Nat.div_div_eq_div_mul]

/-- A text without its last three digits. -/
theorem take_text (n : ℕ) :
    (text n).take ((text n).length - 3) = if n < 1000 then [] else text (n / 1000) := by
  split_ifs with hn
  · have hlen := length_text_of_lt hn
    rw [show (text n).length - 3 = 0 by omega, List.take_zero]
  · rw [text_thousand (by omega)]
    simp

end Decimal
