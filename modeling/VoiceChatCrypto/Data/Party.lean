import Mathlib.Order.Lattice
import Mathlib.Order.Defs.LinearOrder

/-!
# The two ends of a conversation

Both ends run the same code, and what holds of one holds of its peer. Statements are therefore about a
`Party` and its `peer`.
-/

namespace VoiceChatCrypto

/-- The two ends of a conversation, for protocols that treat both alike. -/
inductive Party
  | alice
  | bob
  deriving DecidableEq

/-- The other end. -/
def Party.peer : Party → Party
  | alice => bob
  | bob => alice

/-- The parity of the rungs a party stands on. -/
def Party.parity : Party → ℕ
  | alice => 1
  | bob => 0

/-- Two parties are peers when their parities differ. -/
theorem Party.eq_peer_iff {p q : Party} : p = q.peer ↔ p.parity ≠ q.parity := by
  cases p <;> cases q <;> decide

theorem Party.eq_or_eq_peer (p q : Party) : p = q ∨ p = q.peer := by
  cases p <;> cases q <;> decide

theorem Party.peer_peer (p : Party) : p.peer.peer = p := by
  cases p <;> rfl

/-- What holds of a number for a party and its peer holds up to their maximum. -/
theorem Party.le_max (f : Party → ℕ) (p q : Party) : f q ≤ max (f p) (f p.peer) := by
  rcases Party.eq_or_eq_peer q p with rfl | rfl
  · exact le_max_left _ _
  · exact le_max_right _ _

end VoiceChatCrypto
