import Blkin.Python

/-!
# The scribe client, `scribe_client.py`

The server answers the `k`-th `Log` call with `replies k`, `0` if it took the entry. The
calls so far are kept with their replies.
-/

namespace Blkin

/-- `scribe.LogEntry` -/
structure LogEntry where
  category : Bytes
  message : Bytes
  deriving DecidableEq, Repr

/-- The entries of the `Log` calls so far and the replies to them. -/
abbrev Sent := List (LogEntry × ℤ)

/-- `ScribeClient.log` -/
def ScribeClient.log (replies : ℕ → ℤ) (sent : Sent) (category message : Bytes) : ℤ × Sent :=
  let logEntry := ⟨category, message⟩
  let result := replies sent.length
  (result, sent ++ [(logEntry, result)])

/-- The entries that the server took. -/
def Sent.accepted (sent : Sent) : List LogEntry :=
  (sent.filter (·.2 = 0)).map Prod.fst

/-- If the server takes as many entries as it gets, it takes each. -/
theorem Sent.length_accepted {sent : Sent} :
    sent.accepted.length = sent.length ↔ ∀ x ∈ sent, x.2 = 0 := by
  rw [accepted, List.length_map, List.length_filter_eq_length_iff]
  simp

theorem Sent.accepted_eq {sent : Sent} (h : ∀ x ∈ sent, x.2 = 0) :
    sent.accepted = sent.map Prod.fst := by
  rw [accepted, List.filter_eq_self.2 fun x hx => by simpa using h x hx]

end Blkin
