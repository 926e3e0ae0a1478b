import Mathlib.Data.Finsupp.Basic
import Mathlib.Algebra.BigOperators.Finsupp.Basic
/-!
# Ledger — balances and their total

All but finitely many accounts hold nothing.  `move` reads both balances before it writes either: between two accounts
that conserves the total, and within one account it makes the amount.
-/

abbrev Ledger (α : Type) := α →₀ ℕ

namespace Ledger

variable {α : Type}

def total (l : Ledger α) : ℕ := l.sum fun _ n => n

/-- Takes `amount` from `source` and gives it to `target`, from what both hold at the start. -/
noncomputable def move (l : Ledger α) (source target : α) (amount : ℕ) : Ledger α :=
  (l.update source (l source - amount)).update target (l target + amount)

theorem total_update (l : Ledger α) (a : α) (n : ℕ) : total (l.update a n) + l a = total l + n :=
  Finsupp.sum_update_add l a n (fun _ n => n) (fun _ => rfl) (fun _ _ _ => rfl)

theorem move_of_ne (l : Ledger α) {source target a : α} (amount : ℕ) (hs : a ≠ source) (ht : a ≠ target) :
    move l source target amount a = l a := by
  classical
  unfold move
  rw [Finsupp.update_apply, if_neg ht, Finsupp.update_apply, if_neg hs]

theorem total_move {l : Ledger α} {source target : α} {amount : ℕ} (hne : source ≠ target) (h : amount ≤ l source) :
    total (move l source target amount) = total l := by
  classical
  have hs := total_update l source (l source - amount)
  have ht := total_update (l.update source (l source - amount)) target (l target + amount)
  rw [Finsupp.update_apply, if_neg hne.symm] at ht
  unfold move
  omega

theorem total_move_self (l : Ledger α) (a : α) (amount : ℕ) : total (move l a a amount) = total l + amount := by
  have h := total_update l a (l a + amount)
  unfold move
  rw [Finsupp.update_idem]
  omega

end Ledger
