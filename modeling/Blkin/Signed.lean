import Mathlib.Algebra.Order.Ring.Int

/-!
# Signed arithmetic with overflow

C leaves a signed operation undefined whose exact result does not fit, and a left shift of
a negative number. `exactly` is the value of an exact result, if it fits; the operations on
64 bits are defined by it, and each is known by the integer its result stands for
(`shl_eq_some_iff`, `add_eq_some_iff`).
-/

namespace Signed

/-- The 64-bit integer `n`, unless it overflows. -/
def exactly (n : ℤ) : Option Int64 :=
  if -2 ^ 63 ≤ n ∧ n < 2 ^ 63 then some (Int64.ofInt n) else none

/-- `a << k` -/
def shl (a : Int64) (k : ℕ) : Option Int64 :=
  if 0 ≤ a then exactly (a.toInt * 2 ^ k) else none

/-- `a + b` -/
def add (a b : Int64) : Option Int64 :=
  exactly (a.toInt + b.toInt)

variable {a b c : Int64}

theorem exactly_eq_some_iff {n : ℤ} : exactly n = some c ↔ c.toInt = n := by
  unfold exactly
  constructor
  · intro h
    split_ifs at h with hn
    rw [← Option.some.inj h, Int64.toInt_ofInt_of_le hn.1 hn.2]
  · rintro rfl
    rw [if_pos ⟨c.le_toInt, c.toInt_lt⟩, Int64.ofInt_toInt]

theorem shl_eq_some_iff {k : ℕ} : shl a k = some c ↔ 0 ≤ a ∧ c.toInt = a.toInt * 2 ^ k := by
  unfold shl
  split_ifs with ha
  · rw [exactly_eq_some_iff, and_iff_right ha]
  · simp [ha]

theorem add_eq_some_iff : add a b = some c ↔ c.toInt = a.toInt + b.toInt :=
  exactly_eq_some_iff

end Signed
