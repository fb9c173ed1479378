import Blkin.Decimal
import Mathlib.Data.List.TakeWhile

/-!
# IPv4 addresses as text

`quad` is the canonical dotted quad of four bytes. `aton` reads an address as
`inet_aton` does : one to four numbers between dots, each decimal, octal after a `0` or
hexadecimal after a `0x`, where the last one fills the bytes that are left. The address
ends at the first white space, and what follows is ignored. It reads a dotted quad back
(`aton_quad`), and any four numbers below 256 (`IsQuad`).
-/

namespace Inet

/-- The byte of `.`. -/
def dot : UInt8 := 46

/-- The dotted quad `a.b.c.d`. -/
def quad (a b c d : UInt8) : List UInt8 :=
  [dot].intercalate ([a, b, c, d].map fun n => Decimal.text n.toNat)

/-- The value of a digit of a base up to 16. -/
def digitValue (b : UInt8) : Option ℕ :=
  if 48 ≤ b ∧ b ≤ 57 then some (b.toNat - 48)
  else if 97 ≤ b ∧ b ≤ 102 then some (b.toNat - 87)
  else if 65 ≤ b ∧ b ≤ 70 then some (b.toNat - 55)
  else none

/-- The number in base `base` after the leading value `n`. -/
def numeral (base : ℕ) : ℕ → List UInt8 → Option ℕ
  | n, [] => some n
  | n, b :: bs => (digitValue b).bind fun d =>
    if d < base then numeral base (base * n + d) bs else none

/-- A number, in the base its first characters say. -/
def number : List UInt8 → Option ℕ
  | [] => none
  | b :: bs =>
    if b = 48 then
      match bs with
      | [] => some 0
      | x :: hs => if x = 120 ∨ x = 88 then (if hs = [] then none else numeral 16 0 hs)
        else numeral 8 0 bs
    else numeral 10 0 (b :: bs)

/-- The address whose leading bytes are given, with `n` in the `w` bytes that are left. -/
def fill (bs : List ℕ) (w n : ℕ) : Option (List UInt8) :=
  if bs.all (· < 256) ∧ n < 256 ^ w then
    some (bs.map UInt8.ofNat ++
      (List.range w).reverse.map fun k => UInt8.ofNat (n / 256 ^ k % 256))
  else none

/-- White space in ASCII. -/
def isSpace (b : UInt8) : Bool :=
  b = 32 || (9 ≤ b && b ≤ 13)

/-- `inet_aton` -/
def aton (text : List UInt8) : Option (List UInt8) :=
  (((text.takeWhile (!isSpace ·)).splitOn dot).mapM number).bind fun ns =>
    match ns with
    | [a] => fill [] 4 a
    | [a, b] => fill [a] 3 b
    | [a, b, c] => fill [a, b] 2 c
    | [a, b, c, d] => fill [a, b, c] 1 d
    | _ => none

theorem length_of_fill {bs : List ℕ} {w n : ℕ} {address : List UInt8}
    (h : fill bs w n = some address) : address.length = bs.length + w := by
  unfold fill at h
  split_ifs at h
  rw [← Option.some.inj h]
  simp

theorem length_of_aton {text address : List UInt8} (h : aton text = some address) :
    address.length = 4 := by
  obtain ⟨ns, -, h⟩ := Option.bind_eq_some_iff.1 h
  split at h
  case h_5 => simp at h
  all_goals exact length_of_fill h

theorem dot_notMem_text (n : ℕ) : dot ∉ Decimal.text n := by
  intro h
  exact absurd (Decimal.isDigit_of_mem_text n h) (by decide)

theorem number_text (a : UInt8) : number (Decimal.text a.toNat) = some a.toNat := by
  have h : ∀ n : Fin 256, number (Decimal.text n) = some n.val := by decide +kernel
  exact h a.toFin

theorem not_isSpace_of_digitValue {b : UInt8} {d : ℕ} (h : digitValue b = some d) :
    isSpace b = false := by
  have hspace : ∀ b : Fin 256, isSpace (.ofFin b) → digitValue (.ofFin b) = none := by
    decide +kernel
  by_contra hb
  have hnone := hspace b.toFin (by simpa using hb)
  rw [UInt8.ofFin_toFin, h] at hnone
  cases hnone

theorem not_isSpace_of_numeral {base : ℕ} : ∀ {bs : List UInt8} {n m : ℕ},
    numeral base n bs = some m → ∀ b ∈ bs, isSpace b = false
  | [], _, _, _ => by simp
  | b :: bs, n, m, h => by
    obtain ⟨d, hd, h⟩ := Option.bind_eq_some_iff.1 h
    split_ifs at h
    exact List.forall_mem_cons.2 ⟨not_isSpace_of_digitValue hd, not_isSpace_of_numeral h⟩

/-- No number has white space in it. -/
theorem not_isSpace_of_number {x : List UInt8} {n : ℕ} (h : number x = some n) :
    ∀ b ∈ x, isSpace b = false := by
  unfold number at h
  split at h
  · cases h
  · split_ifs at h with hzero
    · subst hzero
      refine List.forall_mem_cons.2 ⟨rfl, ?_⟩
      split at h
      · simp
      · split_ifs at h with hx hnone
        · refine List.forall_mem_cons.2 ⟨?_, not_isSpace_of_numeral h⟩
          rcases hx with rfl | rfl <;> rfl
        · exact not_isSpace_of_numeral h
    · exact not_isSpace_of_numeral h

/-- Four numbers below 256 between dots. -/
def IsQuad (text : List UInt8) : Prop :=
  ∃ p q r s, text = [dot].intercalate [p, q, r, s] ∧
    ∀ x ∈ [p, q, r, s], dot ∉ x ∧ ∃ n : UInt8, number x = some n.toNat

theorem aton_intercalate {p q r s : List UInt8} {a b c d : UInt8}
    (hdot : ∀ x ∈ [p, q, r, s], dot ∉ x) (hp : number p = some a.toNat)
    (hq : number q = some b.toNat) (hr : number r = some c.toNat)
    (hs : number s = some d.toNat) :
    aton ([dot].intercalate [p, q, r, s]) = some [a, b, c, d] := by
  have hsplit := List.splitOn_intercalate dot hdot (by simp)
  have hbyte : ∀ n : UInt8, n.toNat < 256 := UInt8.toNat_lt
  have hall : ∀ x ∈ [dot].intercalate [p, q, r, s], (!isSpace x) = true := by
    have hp := not_isSpace_of_number hp
    have hq := not_isSpace_of_number hq
    have hr := not_isSpace_of_number hr
    have hs := not_isSpace_of_number hs
    have hsep : isSpace dot = false := rfl
    intro x hx
    simp only [List.intercalate, List.intersperse, List.flatten_cons, List.mem_append,
      List.flatten_nil, List.append_nil, List.mem_singleton] at hx
    grind
  rw [aton, List.takeWhile_eq_self_iff.2 hall, hsplit]
  simp [hp, hq, hr, hs, fill, hbyte]

/-- The four bytes of a dotted quad. -/
theorem aton_quad (a b c d : UInt8) : aton (quad a b c d) = some [a, b, c, d] :=
  aton_intercalate (by simp [dot_notMem_text]) (number_text a) (number_text b) (number_text c)
    (number_text d)

theorem isQuad_quad (a b c d : UInt8) : IsQuad (quad a b c d) :=
  ⟨_, _, _, _, rfl, by simp [dot_notMem_text, number_text]⟩

theorem IsQuad.aton {text : List UInt8} (h : IsQuad text) :
    ∃ address, aton text = some address := by
  obtain ⟨p, q, r, s, rfl, hall⟩ := h
  simp only [List.forall_mem_cons] at hall
  obtain ⟨⟨hp, a, ha⟩, ⟨hq, b, hb⟩, ⟨hr, c, hc⟩, ⟨hs, d, hd⟩, -⟩ := hall
  exact ⟨_, aton_intercalate (by simp [hp, hq, hr, hs]) ha hb hc hd⟩

end Inet
