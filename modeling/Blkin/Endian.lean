import Mathlib.Data.List.Basic
import Mathlib.Data.Vector.Basic
import Mathlib.Tactic.Positivity
import Mathlib.Tactic.Zify

/-!
# Fixed-width numbers as bytes

`toLittle w n` is `n` in `w` bytes, least significant first, and `toBig w n` the same
bytes most significant first; `ofLittle` and `ofBig` read them back. `toBigInt` and
`ofBigInt` are two's complement of `w` bytes.

A host stores a 64-bit word in its own `ByteOrder` (`store64`, `load64`).
`be64ToCpu` and `cpuToBe64` convert between a word as loaded from big-endian memory and
its value, on either host.
-/

namespace Endian

/-! ## Naturals -/

/-- The `w` low bytes of `n`, least significant first. -/
def toLittle : ℕ → ℕ → List UInt8
  | 0, _ => []
  | w + 1, n => UInt8.ofNat n :: toLittle w (n / 256)

/-- The number whose bytes are given, least significant first. -/
def ofLittle : List UInt8 → ℕ
  | [] => 0
  | b :: bs => b.toNat + 256 * ofLittle bs

/-- The `w` low bytes of `n`, most significant first. -/
def toBig (w n : ℕ) : List UInt8 :=
  (toLittle w n).reverse

/-- The number whose bytes are given, most significant first. -/
def ofBig (bs : List UInt8) : ℕ :=
  ofLittle bs.reverse

@[simp] theorem length_toLittle : ∀ w n, (toLittle w n).length = w
  | 0, _ => rfl
  | w + 1, n => by simp [toLittle, length_toLittle w]

@[simp] theorem length_toBig (w n : ℕ) : (toBig w n).length = w := by
  simp [toBig]

theorem ofLittle_lt : ∀ bs, ofLittle bs < 256 ^ bs.length
  | [] => by simp [ofLittle]
  | b :: bs => by
    have hb := b.toNat_lt
    have ih := ofLittle_lt bs
    simp only [ofLittle, List.length_cons, pow_succ]
    omega

theorem ofBig_lt (bs : List UInt8) : ofBig bs < 256 ^ bs.length := by
  simpa [ofBig] using ofLittle_lt bs.reverse

theorem ofLittle_toLittle : ∀ w n, n < 256 ^ w → ofLittle (toLittle w n) = n
  | 0, n, h => by
    simp only [pow_zero, Nat.lt_one_iff] at h
    simp [toLittle, ofLittle, h]
  | w + 1, n, h => by
    have hq : n / 256 < 256 ^ w := by
      rw [pow_succ] at h
      omega
    rw [toLittle, ofLittle, ofLittle_toLittle w _ hq, UInt8.toNat_ofNat']
    omega

theorem toLittle_ofLittle : ∀ bs, toLittle bs.length (ofLittle bs) = bs
  | [] => rfl
  | b :: bs => by
    have hb := b.toNat_lt
    have hq : (b.toNat + 256 * ofLittle bs) / 256 = ofLittle bs := by omega
    have hr : UInt8.ofNat (b.toNat + 256 * ofLittle bs) = b := by
      rw [← UInt8.toNat_inj, UInt8.toNat_ofNat']
      omega
    rw [List.length_cons, ofLittle, toLittle, hq, hr, toLittle_ofLittle bs]

theorem ofBig_toBig {w n : ℕ} (h : n < 256 ^ w) : ofBig (toBig w n) = n := by
  rw [ofBig, toBig, List.reverse_reverse, ofLittle_toLittle w n h]

theorem toBig_ofBig (bs : List UInt8) : toBig bs.length (ofBig bs) = bs := by
  rw [toBig, ofBig, ← List.length_reverse, toLittle_ofLittle, List.reverse_reverse]

/-! ## Two's complement -/

/-- `n` in `w` bytes of two's complement, most significant first. -/
def toBigInt (w : ℕ) (n : ℤ) : List UInt8 :=
  toBig w (n % 256 ^ w).toNat

/-- The signed number whose two's complement bytes are given. -/
def ofBigInt (bs : List UInt8) : ℤ :=
  (ofBig bs : ℤ).bmod (256 ^ bs.length)

@[simp] theorem length_toBigInt (w : ℕ) (n : ℤ) : (toBigInt w n).length = w := by
  simp [toBigInt]

theorem ofBigInt_toBigInt {w : ℕ} {n : ℤ} (hlo : -(256 ^ w : ℕ) ≤ 2 * n)
    (hhi : 2 * n < (256 ^ w : ℕ)) : ofBigInt (toBigInt w n) = n := by
  have hpos : (0 : ℤ) < 256 ^ w := by positivity
  have hnn : 0 ≤ n % 256 ^ w := Int.emod_nonneg _ hpos.ne'
  have hlt : (n % 256 ^ w).toNat < 256 ^ w := by
    have := Int.emod_lt_of_pos n hpos
    zify
    rwa [Int.toNat_of_nonneg hnn]
  rw [ofBigInt, toBigInt, length_toBig, ofBig_toBig hlt, Int.toNat_of_nonneg hnn]
  have hcast : (256 ^ w : ℤ) = ((256 ^ w : ℕ) : ℤ) := by push_cast; rfl
  rw [hcast, Int.emod_bmod]
  exact Int.bmod_eq_of_le_mul_two (by omega) (by omega)

theorem ofBigInt_bounds (bs : List UInt8) :
    -(256 ^ bs.length : ℕ) ≤ 2 * ofBigInt bs ∧ 2 * ofBigInt bs < (256 ^ bs.length : ℕ) := by
  have hpos : 0 < 256 ^ bs.length := by positivity
  have hlo := Int.le_bmod (x := (ofBig bs : ℤ)) hpos
  have hhi := Int.bmod_lt (x := (ofBig bs : ℤ)) hpos
  rw [ofBigInt]
  constructor <;> omega

theorem toBigInt_ofBigInt (bs : List UInt8) : toBigInt bs.length (ofBigInt bs) = bs := by
  have hlt : (ofBig bs : ℤ) < (256 ^ bs.length : ℕ) := by exact_mod_cast ofBig_lt bs
  have hmod : ofBigInt bs % (256 ^ bs.length : ℕ) = ofBig bs := by
    rw [ofBigInt, Int.bmod_emod, Int.emod_eq_of_lt (by positivity) hlt]
  have hcast : (256 ^ bs.length : ℤ) = ((256 ^ bs.length : ℕ) : ℤ) := by push_cast; rfl
  rw [toBigInt, hcast, hmod, Int.toNat_natCast, toBig_ofBig]

/-! ## Words of a host -/

/-- The order in which a host lays out the bytes of a word. -/
inductive ByteOrder
  | little
  | big
  deriving DecidableEq, Repr

/-- The 64-bit word a host reads from eight bytes. -/
def load64 : ByteOrder → Vector UInt8 8 → UInt64
  | .little, v => UInt64.ofNat (ofLittle v.toList)
  | .big, v => UInt64.ofNat (ofBig v.toList)

/-- The eight bytes a host writes for a 64-bit word. -/
def store64 : ByteOrder → UInt64 → Vector UInt8 8
  | .little, x => ⟨(toLittle 8 x.toNat).toArray, by simp⟩
  | .big, x => ⟨(toBig 8 x.toNat).toArray, by simp⟩

/-- The bytes of the word in the opposite order. -/
def swab64 (x : UInt64) : UInt64 :=
  UInt64.ofNat (ofBig (toLittle 8 x.toNat))

/-- `__be64_to_cpu` -/
def be64ToCpu : ByteOrder → UInt64 → UInt64
  | .little, x => swab64 x
  | .big, x => x

/-- `__cpu_to_be64` -/
def cpuToBe64 : ByteOrder → UInt64 → UInt64
  | .little, x => swab64 x
  | .big, x => x

theorem toList_store64_big (x : UInt64) : (store64 .big x).toList = toBig 8 x.toNat := by
  simp [store64]

theorem toList_store64_little (x : UInt64) :
    (store64 .little x).toList = toLittle 8 x.toNat := by
  simp [store64]

/-- A big-endian word converted to host order is the number its bytes spell. -/
theorem be64ToCpu_load64 (o : ByteOrder) (v : Vector UInt8 8) :
    be64ToCpu o (load64 o v) = load64 .big v := by
  cases o with
  | big => rfl
  | little =>
    have hlt : ofLittle v.toList < 2 ^ 64 := by simpa using ofLittle_lt v.toList
    have hv := toLittle_ofLittle v.toList
    rw [Vector.length_toList] at hv
    simp only [be64ToCpu, load64, swab64, UInt64.toNat_ofNat']
    rw [Nat.mod_eq_of_lt hlt, hv]

/-- A word converted from host order is stored with its bytes most significant first. -/
theorem store64_cpuToBe64 (o : ByteOrder) (x : UInt64) :
    store64 o (cpuToBe64 o x) = store64 .big x := by
  cases o with
  | big => rfl
  | little =>
    have hlt : ofBig (toLittle 8 x.toNat) < 2 ^ 64 := by
      simpa using ofBig_lt (toLittle 8 x.toNat)
    have hrev := toLittle_ofLittle (toLittle 8 x.toNat).reverse
    rw [List.length_reverse, length_toLittle] at hrev
    rw [← Vector.toList_inj, toList_store64_little, toList_store64_big, cpuToBe64, swab64,
      UInt64.toNat_ofNat', Nat.mod_eq_of_lt hlt, ofBig, hrev, toBig]

theorem load64_store64_big (x : UInt64) : load64 .big (store64 .big x) = x := by
  rw [load64, toList_store64_big, ofBig_toBig (by simpa using x.toNat_lt), UInt64.ofNat_toNat]

theorem store64_load64_big (v : Vector UInt8 8) : store64 .big (load64 .big v) = v := by
  have hlt : ofBig v.toList < 2 ^ 64 := by simpa using ofBig_lt v.toList
  have hv := toBig_ofBig v.toList
  rw [Vector.length_toList] at hv
  rw [← Vector.toList_inj, toList_store64_big, load64, UInt64.toNat_ofNat',
    Nat.mod_eq_of_lt hlt, hv]

end Endian
