import Stow.Lib.Checked

/-! Amounts priced against a pool of shares: all at one rate, or each at the rate that the ones
before it left. -/
namespace Stow.Lib

/-- What an amount mints at a supply of shares, with so much held and so much owed. -/
def Quote (supply gross owed amount shares : Int) : Prop :=
  shares ≠ 0 ∧ ((supply = 0 ∧ shares = amount) ∨
    (supply ≠ 0 ∧ FitsI128 gross ∧ FitsI128 owed ∧ FitsI128 (gross - owed) ∧ 0 < gross - owed ∧
      FitsI128 shares ∧ shares = (amount * supply).tdiv (gross - owed)))

instance (supply gross owed amount shares : Int) :
    Decidable (Quote supply gross owed amount shares) :=
  inferInstanceAs (Decidable (_ ∧ _))

/-- Every amount at the rate before the first, with a running total that fits. -/
def OneRate (supply gross owed : Int) : Int → List Int → List Int → Prop
  | _, [], [] => True
  | total, amount :: amounts, shares :: rest =>
    Quote supply gross owed amount shares ∧ FitsI128 (total + amount) ∧
      OneRate supply gross owed (total + amount) amounts rest
  | _, _, _ => False

/-- Every amount at the rate that the ones before it left. -/
def MovingRate : (supply gross owed : Int) → List Int → List Int → Prop
  | _, _, _, [], [] => True
  | supply, gross, owed, amount :: amounts, shares :: rest =>
    Quote supply gross owed amount shares ∧
      MovingRate (supply + shares) (gross + amount) owed amounts rest
  | _, _, _, _, _ => False

theorem OneRate.length {supply gross owed total : Int} {amounts xs : List Int}
    (h : OneRate supply gross owed total amounts xs) : xs.length = amounts.length := by
  induction amounts generalizing total xs with
  | nil =>
    cases xs with
    | nil => rfl
    | cons x xs => exact h.elim
  | cons amount rest ih =>
    cases xs with
    | nil => exact h.elim
    | cons x xs => rw [List.length_cons, List.length_cons, ih h.2.2]

end Stow.Lib
