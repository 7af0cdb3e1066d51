import Mathlib.Data.List.Basic
import Mathlib.Logic.Function.Basic

/- Tables of numbered entries, of which only the first `n` numbers are in use.

   `holding p f n` counts the entries below `n` that satisfy `p`. Writing to one number moves
   the count by what the old and the new entry contribute (`holding_update`); numbers that
   are not in use yet do not count (`holding_update_of_le`). -/
namespace TurboScript.Lib

variable {α : Type}

/-- The number of entries below `n` that satisfy `p`. -/
def holding (p : α → Bool) (f : Nat → Option α) (n : Nat) : Nat :=
  (List.range n).countP fun i => (f i).any p

def contributes (p : α → Bool) (o : Option α) : Nat := if o.any p then 1 else 0

variable {p : α → Bool} {f : Nat → Option α} {n k : Nat} {v : Option α}

theorem holding_succ : holding p f (n + 1) = holding p f n + contributes p (f n) := by
  unfold holding contributes
  rw [List.range_succ, List.countP_append, List.countP_singleton]

theorem holding_update_of_le (h : n ≤ k) : holding p (Function.update f k v) n = holding p f n := by
  induction n with
  | zero => rfl
  | succ n ih =>
    have hne : n ≠ k := Nat.ne_of_lt h
    rw [holding_succ, holding_succ, ih (Nat.le_of_succ_le h), Function.update_of_ne hne]

theorem holding_update (h : k < n) : holding p (Function.update f k v) n + contributes p (f k) =
      holding p f n + contributes p v := by
  induction n with
  | zero => exact absurd h (Nat.not_lt_zero k)
  | succ n ih =>
    rw [holding_succ, holding_succ]
    by_cases hk : k = n
    · rw [← hk, holding_update_of_le (Nat.le_refl k), Function.update_self]
      omega
    · have hlt : k < n := Nat.lt_of_le_of_ne (Nat.le_of_lt_succ h) hk
      have hih := ih hlt
      rw [Function.update_of_ne (Ne.symm hk)]
      omega

theorem contributes_pos {o : Option α} : contributes p o = 1 ↔ ∃ a, o = some a ∧ p a = true := by
  unfold contributes
  cases o with
  | none | some => simp

theorem holding_pos (h : k < n) (hk : contributes p (f k) = 1) : 0 < holding p f n := by
  have hupdate := holding_update (p := p) (f := f) (v := none) h
  have hnone : contributes p (none : Option α) = 0 := rfl
  omega

end TurboScript.Lib
