import Blkin.Base64
import Blkin.Inet
import Blkin.Endian

/-!
# Python 2 values and the library functions the plugins use

A `str` is a list of bytes and a `unicode` a list of characters. A value of another type
(`other`) is known by whether it equals `0` and what `int` makes of it. A function that
may raise gives an `Except PyError`.
-/

open Inet (isSpace)

namespace Blkin

/-- The bytes of a `str`. -/
abbrev Bytes := List UInt8

/-- The `str` of an ASCII literal. -/
def ascii (s : String) : Bytes :=
  s.toList.map fun c => UInt8.ofNat c.toNat

inductive PyError
  | keyError (key : String)
  | valueError
  | typeError
  | unboundLocalError (name : String)
  | structError
  | socketError
  deriving DecidableEq, Repr

@[simp] theorem ok_bind {α β : Type} (a : α) (f : α → Except PyError β) :
    (Except.ok a >>= f) = f a := rfl

@[simp] theorem error_bind {α β : Type} (err : PyError) (f : α → Except PyError β) :
    (Except.error err >>= f) = .error err := rfl

inductive Value
  | none
  | int (n : ℤ)
  | str (s : Bytes)
  | unicode (s : List Char)
  | other (isZero : Bool) (toInt : Option ℤ)
  deriving DecidableEq, Repr

/-- `v == 0` -/
def Value.isZero : Value → Bool
  | .int n => n = 0
  | .other z _ => z
  | _ => false

/-! ## Strings -/

/-- `s.strip()` -/
def strip (s : Bytes) : Bytes :=
  (s.dropWhile isSpace).rdropWhile isSpace

/-- `s.replace("\n", "")` -/
def dropNewlines (s : Bytes) : Bytes :=
  s.filter (· ≠ Base64.newline)

/-- `s[:-n]` -/
def dropEnd (n : ℕ) (s : Bytes) : Bytes :=
  s.take (s.length - n)

/-- `int(s)` -/
def intOfStr (s : Bytes) : Except PyError ℤ :=
  match strip s with
  | 45 :: ds => (Decimal.value ds).elim (.error .valueError) fun n => .ok (-(n : ℤ))
  | 43 :: ds => (Decimal.value ds).elim (.error .valueError) fun n => .ok n
  | ds => (Decimal.value ds).elim (.error .valueError) fun n => .ok n

/-- `int(v)`. Digits of a `unicode` are the ASCII ones. -/
def pyInt : Value → Except PyError ℤ
  | .none => .error .typeError
  | .int n => .ok n
  | .str s => intOfStr s
  | .unicode s => if s.all fun c => c.toNat < 128 then intOfStr (s.map fun c => UInt8.ofNat c.toNat)
    else .error .valueError
  | .other _ n => n.elim (.error .typeError) .ok

/-- `s.encode('utf-8')` -/
def encodeUtf8 (s : List Char) : Bytes :=
  s.flatMap String.utf8EncodeChar

/-- `s.encode('base64')` -/
def encodeBase64 (s : Bytes) : Bytes :=
  Base64.encodeLines s

/-! ## Sockets -/

/-- `socket.inet_aton(v)` -/
def inetAton : Value → Except PyError Bytes
  | .str s => (Inet.aton s).elim (.error .socketError) .ok
  | _ => .error .typeError

/-- `struct.unpack('!i', s)[0]` -/
def unpackI (s : Bytes) : Except PyError ℤ :=
  if s.length = 4 then .ok (Endian.ofBigInt s) else .error .structError

/-! ## Facts -/

theorem strip_digits {s : Bytes} (h : ∀ b ∈ s, Decimal.isDigit b = true) : strip s = s := by
  have hspace : ∀ b ∈ s, isSpace b ≠ true := by
    intro b hb
    have hdigit := h b hb
    simp only [Decimal.isDigit, Bool.and_eq_true, decide_eq_true_eq, UInt8.le_iff_toNat_le]
      at hdigit
    have h48 : 48 ≤ b.toNat := hdigit.1
    simp only [isSpace, ne_eq, Bool.or_eq_true, Bool.and_eq_true, decide_eq_true_eq,
      UInt8.le_iff_toNat_le, ← UInt8.toNat_inj]
    show ¬(b.toNat = 32 ∨ 9 ≤ b.toNat ∧ b.toNat ≤ 13)
    omega
  rw [strip, List.dropWhile_eq_self_iff.2, List.rdropWhile_eq_self_iff.2]
  · exact fun hne => hspace _ (List.getLast_mem hne)
  · exact fun hlen => hspace _ (List.getElem_mem hlen)

theorem intOfStr_digits {s : Bytes} (h : ∀ b ∈ s, Decimal.isDigit b = true) :
    intOfStr s = (Decimal.value s).elim (.error .valueError) fun n => .ok n := by
  rw [intOfStr, strip_digits h]
  split
  · exact absurd (h 45 (by simp)) (by decide)
  · exact absurd (h 43 (by simp)) (by decide)
  · rfl

theorem filter_dropWhile {p q : UInt8 → Bool} {s : Bytes}
    (h : ∀ b ∈ s, q b = true → p b = false) : (s.dropWhile q).filter p = s.filter p := by
  have htake : (s.takeWhile q).filter p = [] := by
    refine List.filter_eq_nil_iff.2 fun b hb => ?_
    rw [h b (List.takeWhile_subset q hb) (List.mem_takeWhile_imp hb)]
    decide
  have hsplit := congrArg (List.filter p) (List.takeWhile_append_dropWhile (p := q) (l := s))
  rwa [List.filter_append, htake, List.nil_append] at hsplit

/-- Stripping takes off only whitespace. -/
theorem filter_strip {p : UInt8 → Bool} {s : Bytes}
    (hp : ∀ b ∈ s, isSpace b = true → p b = false) : (strip s).filter p = s.filter p := by
  have hright : ∀ t : Bytes, (∀ b ∈ t, isSpace b = true → p b = false) →
      (t.rdropWhile isSpace).filter p = t.filter p := by
    intro t ht
    rw [List.rdropWhile, List.filter_reverse, filter_dropWhile (by simpa using ht),
      List.filter_reverse, List.reverse_reverse]
  rw [strip, hright _ fun b hb => hp b (List.dropWhile_subset _ hb), filter_dropWhile hp]

end Blkin
