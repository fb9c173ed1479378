import Mathlib.Data.List.Basic

/-!
# UTF-8 and UTF-16

A text as its code points. `Utf8.decode` reads bytes, and takes the encoding of a surrogate
for a code point, which strict readers do not. What the characters of a text encode to is
read back (`Utf8.decode_encode`).

`Utf16.units` writes a code point from `0x10000` on as two surrogates, which `Utf16.join`
puts together again. A text without surrogates of its own is read back
(`Utf16.join_units`).
-/

namespace Utf8

/-- A byte after the first of a code point. -/
abbrev Tail (b : UInt8) : Prop :=
  0x80 ≤ b.toNat ∧ b.toNat < 0xC0

/-- The code points of the bytes, none of them longer than it has to be. -/
def decode : List UInt8 → Option (List ℕ)
  | [] => some []
  | a :: bs =>
    if a.toNat < 0x80 then (decode bs).map (a.toNat :: ·)
    else match bs with
    | [] => none
    | b :: bs =>
      if 0xC2 ≤ a.toNat ∧ a.toNat < 0xE0 ∧ Tail b then
        (decode bs).map ((a.toNat % 32 * 64 + b.toNat % 64) :: ·)
      else match bs with
      | [] => none
      | c :: bs =>
        if 0xE0 ≤ a.toNat ∧ a.toNat < 0xF0 ∧ Tail b ∧ Tail c ∧
            (a.toNat = 0xE0 → 0xA0 ≤ b.toNat) then
          (decode bs).map ((a.toNat % 16 * 4096 + b.toNat % 64 * 64 + c.toNat % 64) :: ·)
        else match bs with
        | [] => none
        | d :: bs =>
          if 0xF0 ≤ a.toNat ∧ a.toNat < 0xF5 ∧ Tail b ∧ Tail c ∧ Tail d ∧
              (a.toNat = 0xF0 → 0x90 ≤ b.toNat) ∧ (a.toNat = 0xF4 → b.toNat < 0x90) then
            (decode bs).map ((a.toNat % 8 * 262144 + b.toNat % 64 * 4096 + c.toNat % 64 * 64 +
              d.toNat % 64) :: ·)
          else none

variable {a b c d : UInt8} {bs : List UInt8}

theorem decode_one (ha : a.toNat < 0x80) : decode (a :: bs) = (decode bs).map (a.toNat :: ·) := by
  rw [decode.eq_def]
  exact if_pos ha

theorem decode_two (ha : 0xC2 ≤ a.toNat ∧ a.toNat < 0xE0) (hb : Tail b) :
    decode (a :: b :: bs) = (decode bs).map ((a.toNat % 32 * 64 + b.toNat % 64) :: ·) := by
  rw [decode.eq_def]
  dsimp only
  rw [if_neg (by omega), if_pos ⟨ha.1, ha.2, hb⟩]

theorem decode_three (ha : 0xE0 ≤ a.toNat ∧ a.toNat < 0xF0) (hb : Tail b) (hc : Tail c)
    (hlong : a.toNat = 0xE0 → 0xA0 ≤ b.toNat) : decode (a :: b :: c :: bs) =
      (decode bs).map ((a.toNat % 16 * 4096 + b.toNat % 64 * 64 + c.toNat % 64) :: ·) := by
  rw [decode.eq_def]
  dsimp only
  rw [if_neg (by omega), if_neg (by omega), if_pos ⟨ha.1, ha.2, hb, hc, hlong⟩]

theorem decode_four (ha : 0xF0 ≤ a.toNat ∧ a.toNat < 0xF5) (hb : Tail b) (hc : Tail c)
    (hd : Tail d) (hlong : a.toNat = 0xF0 → 0x90 ≤ b.toNat)
    (hlarge : a.toNat = 0xF4 → b.toNat < 0x90) : decode (a :: b :: c :: d :: bs) =
      (decode bs).map ((a.toNat % 8 * 262144 + b.toNat % 64 * 4096 + c.toNat % 64 * 64 +
        d.toNat % 64) :: ·) := by
  rw [decode.eq_def]
  dsimp only
  rw [if_neg (by omega), if_neg (by omega), if_neg (by omega),
    if_pos ⟨ha.1, ha.2, hb, hc, hd, hlong, hlarge⟩]

theorem toNat_ofNat {n : ℕ} (h : n < 256) : (UInt8.ofNat n).toNat = n :=
  (UInt8.toNat_ofNat').trans (Nat.mod_eq_of_lt h)

/-- The first code point of a text of characters. -/
theorem decode_encodeChar (ch : Char) (bs : List UInt8) :
    decode (String.utf8EncodeChar ch ++ bs) = (decode bs).map (ch.toNat :: ·) := by
  have hv : ch.val.toNat < 0xD800 ∨ 0xDFFF < ch.val.toNat ∧ ch.val.toNat < 0x110000 := ch.valid
  rw [show ch.toNat = ch.val.toNat from rfl]
  unfold String.utf8EncodeChar
  generalize ch.val.toNat = v at hv
  have h₀ : (UInt8.ofNat (v % 64 + 128)).toNat = v % 64 + 128 := toNat_ofNat (by omega)
  have h₁ : (UInt8.ofNat (v / 64 % 64 + 128)).toNat = v / 64 % 64 + 128 := toNat_ofNat (by omega)
  have h₂ : (UInt8.ofNat (v / 4096 % 64 + 128)).toNat = v / 4096 % 64 + 128 :=
    toNat_ofNat (by omega)
  dsimp only
  split_ifs with hone htwo hthree
  · have ha : (UInt8.ofNat v).toNat = v := toNat_ofNat (by omega)
    rw [List.cons_append, List.nil_append, decode_one (by omega), ha]
  · have ha : (UInt8.ofNat (v / 64 % 32 + 192)).toNat = v / 64 % 32 + 192 :=
      toNat_ofNat (by omega)
    have hvalue : (v / 64 % 32 + 192) % 32 * 64 + (v % 64 + 128) % 64 = v := by omega
    simp only [List.cons_append, List.nil_append]
    rw [decode_two (by omega) (by omega), ha, h₀, hvalue]
  · have ha : (UInt8.ofNat (v / 4096 % 16 + 224)).toNat = v / 4096 % 16 + 224 :=
      toNat_ofNat (by omega)
    have hvalue : (v / 4096 % 16 + 224) % 16 * 4096 + (v / 64 % 64 + 128) % 64 * 64 +
        (v % 64 + 128) % 64 = v := by omega
    simp only [List.cons_append, List.nil_append]
    rw [decode_three (by omega) (by omega) (by omega) (by omega), ha, h₁, h₀, hvalue]
  · have ha : (UInt8.ofNat (v / 262144 % 8 + 240)).toNat = v / 262144 % 8 + 240 :=
      toNat_ofNat (by omega)
    have hvalue : (v / 262144 % 8 + 240) % 8 * 262144 + (v / 4096 % 64 + 128) % 64 * 4096 +
        (v / 64 % 64 + 128) % 64 * 64 + (v % 64 + 128) % 64 = v := by omega
    simp only [List.cons_append, List.nil_append]
    rw [decode_four (by omega) (by omega) (by omega) (by omega) (by omega) (by omega), ha, h₂,
      h₁, h₀, hvalue]

/-- What the characters of a text encode to is read back. -/
theorem decode_encode : ∀ cs : List Char,
    decode (cs.flatMap String.utf8EncodeChar) = some (cs.map Char.toNat)
  | [] => rfl
  | ch :: cs => by
    rw [List.flatMap_cons, decode_encodeChar, decode_encode cs]
    rfl

end Utf8

namespace Utf16

/-- A code point that a character has. -/
abbrev Scalar (c : ℕ) : Prop :=
  c < 0xD800 ∨ 0xE000 ≤ c ∧ c < 0x110000

/-- One code unit, or two surrogates. -/
def units (c : ℕ) : List ℕ :=
  if c < 0x10000 then [c]
  else [0xD800 + (c - 0x10000) / 0x400, 0xDC00 + (c - 0x10000) % 0x400]

/-- The code points of the units, where a surrogate without its other half stands for
itself. -/
def join : List ℕ → List ℕ
  | hi :: lo :: us =>
    if 0xD800 ≤ hi ∧ hi < 0xDC00 ∧ 0xDC00 ≤ lo ∧ lo < 0xE000 then
      (0x10000 + (hi - 0xD800) * 0x400 + (lo - 0xDC00)) :: join us
    else hi :: join (lo :: us)
  | us => us

theorem join_cons {u : ℕ} (hu : u < 0xD800 ∨ 0xDC00 ≤ u) (us : List ℕ) :
    join (u :: us) = u :: join us := by
  cases us with
  | nil => rfl
  | cons lo us =>
    rw [join]
    exact if_neg (by omega)

theorem lt_of_mem_units {c u : ℕ} (hc : c < 0x110000) (hu : u ∈ units c) : u < 0x10000 := by
  unfold units at hu
  split_ifs at hu with hlt
  · obtain rfl := List.mem_singleton.1 hu
    exact hlt
  · simp only [List.mem_cons, List.not_mem_nil, or_false] at hu
    omega

theorem join_units_append {c : ℕ} (hc : Scalar c) (us : List ℕ) :
    join (units c ++ us) = c :: join us := by
  unfold units
  split_ifs with hlt
  · exact join_cons (by omega) us
  · simp only [List.cons_append, List.nil_append]
    have hvalue : 0x10000 + (0xD800 + (c - 0x10000) / 0x400 - 0xD800) * 0x400 +
        (0xDC00 + (c - 0x10000) % 0x400 - 0xDC00) = c := by omega
    rw [join, if_pos (by omega), hvalue]

/-- The code points of characters are read back. -/
theorem join_units : ∀ {cs : List ℕ}, (∀ c ∈ cs, Scalar c) → join (cs.flatMap units) = cs
  | [], _ => rfl
  | c :: cs, h => by
    obtain ⟨hc, hcs⟩ := List.forall_mem_cons.1 h
    rw [List.flatMap_cons, join_units_append hc, join_units hcs]

theorem scalar_toNat (ch : Char) : Scalar ch.toNat := by
  have h : ch.toNat < 0xD800 ∨ 0xDFFF < ch.toNat ∧ ch.toNat < 0x110000 := ch.valid
  omega

end Utf16
