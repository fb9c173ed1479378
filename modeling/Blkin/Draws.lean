import Blkin.Memory
import Blkin.Signed

/-!
# The arithmetic of `random_big`

`random_big` shifts one result of `rand()` into the upper half of an `int64_t` and adds
another. `randomBigSteps` is the same computation where a step that overflows is undefined.
No step ever is, the branch that repairs a negative sum is dead, and the id tells the two
results apart (`randomBig_exact`).
-/

namespace Blkin

/-- What `random_big` computes on the way : the shifted value, the sum, whether the sum is
repaired, and the id. -/
structure Draw where
  shifted : Int64
  sum : Int64
  repaired : Bool
  id : Int64

/-- `random_big` on two results of `rand()`, undefined where a step overflows. -/
def randomBigSteps (x y : RandResult) : Option Draw := do
  let a ← Signed.shl x.val.toInt64 32
  let s ← Signed.add a y.val.toInt64
  some ⟨a, s, s < 0, if s < 0 then if s = 0 then 1 else 0 else s⟩

theorem RandResult.toInt_nonneg (x : RandResult) : 0 ≤ x.val.toInt :=
  Int32.le_iff_toInt_le.1 x.nonneg

theorem RandResult.toInt_inj {x y : RandResult} : x.val.toInt = y.val.toInt ↔ x = y := by
  rw [Int32.toInt_inj]
  constructor
  · cases x
    cases y
    rintro rfl
    rfl
  · rintro rfl
    rfl

/-- The result is not negative, and far from overflowing. -/
theorem randomBig_bounds (x y : RandResult) :
    0 ≤ (randomBig x y).toInt ∧ (randomBig x y).toInt ≤ 2 ^ 63 - 2 ^ 31 - 1 := by
  have hx := x.toInt_nonneg
  have hy := y.toInt_nonneg
  have hx' := x.val.toInt_lt
  have hy' := y.val.toInt_lt
  rw [toInt_randomBig]
  omega

theorem randomBig_inj {x y x' y' : RandResult} :
    randomBig x y = randomBig x' y' ↔ x = x' ∧ y = y' := by
  have hy := y.toInt_nonneg
  have hy' := y'.toInt_nonneg
  have hlt := y.val.toInt_lt
  have hlt' := y'.val.toInt_lt
  rw [← Int64.toInt_inj, toInt_randomBig, toInt_randomBig, ← RandResult.toInt_inj,
    ← RandResult.toInt_inj]
  omega

/-- Every step has its exact value, and no sum is repaired. -/
theorem randomBigSteps_eq (x y : RandResult) : ∃ d, randomBigSteps x y = some d ∧
    d.shifted.toInt = x.val.toInt * 2 ^ 32 ∧ d.sum.toInt = x.val.toInt * 2 ^ 32 + y.val.toInt ∧
    d.repaired = false ∧ d.id = randomBig x y := by
  have hx := x.toInt_nonneg
  have hx' := x.val.toInt_lt
  obtain ⟨hlo, -⟩ := randomBig_bounds x y
  obtain ⟨a, ha⟩ : ∃ a : Int64, a.toInt = x.val.toInt * 2 ^ 32 :=
    ⟨_, Int64.toInt_ofInt_of_le (by omega) (by omega)⟩
  have hzero : (0 : Int64).toInt = 0 := rfl
  have hnonneg : 0 ≤ x.val.toInt64 := by
    rw [Int64.le_iff_toInt_le, Int32.toInt_toInt64, hzero]
    exact hx
  have hshl : Signed.shl x.val.toInt64 32 = some a :=
    Signed.shl_eq_some_iff.2 ⟨hnonneg, by rw [ha, Int32.toInt_toInt64]⟩
  have hsum : (randomBig x y).toInt = x.val.toInt * 2 ^ 32 + y.val.toInt := by
    rw [toInt_randomBig, mul_comm]
  have hadd : Signed.add a y.val.toInt64 = some (randomBig x y) :=
    Signed.add_eq_some_iff.2 (by rw [hsum, ha, Int32.toInt_toInt64])
  have hneg : ¬randomBig x y < 0 := by
    rw [Int64.lt_iff_toInt_lt, hzero]
    omega
  exact ⟨⟨a, randomBig x y, false, randomBig x y⟩, by simp [randomBigSteps, hshl, hadd, hneg], ha,
    hsum, rfl, rfl⟩

/-- No step of `random_big` overflows and no sum is repaired. The id is the first result
of `rand()` above the second, and two ids are the same only if both results are. -/
theorem randomBig_exact :
    (∀ x y : RandResult, ∃ d, randomBigSteps x y = some d ∧
      d.shifted.toInt = x.val.toInt * 2 ^ 32 ∧
      d.sum.toInt = x.val.toInt * 2 ^ 32 + y.val.toInt ∧
      d.repaired = false ∧ d.id = randomBig x y ∧
      (randomBig x y).toInt = x.val.toInt * 2 ^ 32 + y.val.toInt ∧
      0 ≤ (randomBig x y).toInt ∧ (randomBig x y).toInt ≤ 2 ^ 63 - 2 ^ 31 - 1) ∧
    (∀ x y x' y' : RandResult, randomBig x y = randomBig x' y' ↔ x = x' ∧ y = y') ∧
    ∀ (m : Mem) (k l : ℕ), m.big k = m.big l ↔
      m.rands (m.drawn + 2 * k) = m.rands (m.drawn + 2 * l) ∧
        m.rands (m.drawn + 2 * k + 1) = m.rands (m.drawn + 2 * l + 1) := by
  refine ⟨fun x y => ?_, fun x y x' y' => randomBig_inj, fun m k l => randomBig_inj⟩
  obtain ⟨d, hd, hshifted, hsum, hrepaired, hid⟩ := randomBigSteps_eq x y
  exact ⟨d, hd, hshifted, hsum, hrepaired, hid, by rw [toInt_randomBig, mul_comm],
    randomBig_bounds x y⟩

end Blkin
