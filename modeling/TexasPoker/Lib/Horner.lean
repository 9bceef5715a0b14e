import Mathlib.Algebra.Group.Basic
import Mathlib.Tactic.Conv

/-! # Horner sums in a group

The value of a list of group elements as a polynomial in a natural number, and the fold that
skips its zero coefficients.
-/

namespace TexasPoker

variable {G : Type*} [AddCommGroup G]

variable {r n : ℕ} {p : G} {points : List G}

variable [DecidableEq G]

/-- One step of a fold that skips a zero coefficient and restarts at a zero sum. -/
def skipStep (r : ℕ) (p acc : G) : G :=
  if p = 0 then acc else if acc = 0 then p else r • acc + p

end TexasPoker
