import Mathlib.Data.List.Basic
import Mathlib.Control.Monad.Basic

/-!
# Readers of written bytes

A `Reader` takes a value off the front of a list of bytes, or fails. `ReadsBack r w a`
says that `r` takes exactly the bytes `w` off any list that starts with them, and gives
`a`. Reading in sequence reads back what was written in sequence (`ReadsBack.bind`).
-/

namespace Codec

variable {α β : Type}

abbrev Reader (α : Type) := StateT (List UInt8) Option α

/-- `r` reads `a` from the bytes `w`, whatever follows. -/
def ReadsBack (r : Reader α) (w : List UInt8) (a : α) : Prop :=
  ∀ rest, r.run (w ++ rest) = some (a, rest)

theorem ReadsBack.pure (a : α) : ReadsBack (Pure.pure a) [] a :=
  fun _ => rfl

theorem ReadsBack.bind {r : Reader α} {k : α → Reader β} {w w' : List UInt8} {a : α} {b : β}
    (h : ReadsBack r w a) (h' : ReadsBack (k a) w' b) : ReadsBack (r >>= k) (w ++ w') b := by
  intro rest
  rw [StateT.run_bind, List.append_assoc, h]
  exact h' rest

theorem ReadsBack.map {r : Reader α} {w : List UInt8} {a : α} (h : ReadsBack r w a)
    (f : α → β) : ReadsBack (f <$> r) w (f a) := by
  intro rest
  rw [StateT.run_map, h]
  rfl

/-- Nothing is left after the written bytes alone. -/
theorem ReadsBack.run {r : Reader α} {w : List UInt8} {a : α} (h : ReadsBack r w a) :
    r.run w = some (a, []) := by
  simpa using h []

/-- Read `n` values. -/
def replicate (r : Reader α) : ℕ → Reader (List α)
  | 0 => Pure.pure []
  | n + 1 => do
    let a ← r
    (a :: ·) <$> replicate r n

/-- Values written one after the other are read back. -/
theorem ReadsBack.replicate {r : Reader α} : ∀ {ws : List (List UInt8)} {as : List α},
    List.Forall₂ (ReadsBack r) ws as → ReadsBack (Codec.replicate r as.length) ws.flatten as
  | [], [], .nil => .pure []
  | _ :: _, a :: _, .cons h hs => h.bind ((ReadsBack.replicate hs).map (a :: ·))

/-- A reader of so many bytes. -/
def take (n : ℕ) : Reader (List UInt8) := fun bs =>
  if n ≤ bs.length then some (bs.take n, bs.drop n) else none

theorem readsBack_take (bs : List UInt8) : ReadsBack (take bs.length) bs bs := by
  intro rest
  simp [take, StateT.run]

end Codec
