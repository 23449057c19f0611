import Mathlib.Order.Lattice
import Mathlib.Tactic.Linarith
import Mathlib.Tactic.LinearCombination
import Mathlib.Tactic.Ring

/-! A series of readings against its running maximum, and a rate charged on each rise. -/
namespace Stow.Lib.HighWater

/-- All rises from one reading to the next. -/
def gains : (last : Int) → List Int → Int
  | _, [] => 0
  | last, b :: bs => max (b - last) 0 + gains b bs

/-- The part of the rises that stays below an earlier reading. -/
def recovered : (last peak : Int) → List Int → Int
  | _, _, [] => 0
  | last, peak, b :: bs => max (min b peak - last) 0 + recovered b (max peak b) bs

/-- What a rate charges on the rises, each rounded down to whole units. -/
def charged (rate unit : Int) : (last : Int) → List Int → Int
  | _, [] => 0
  | last, b :: bs => max (b - last) 0 * rate / unit + charged rate unit b bs

/-- What the rounding leaves uncharged. -/
def dropped (rate unit : Int) : (last : Int) → List Int → Int
  | _, [] => 0
  | last, b :: bs => max (b - last) 0 * rate % unit + dropped rate unit b bs

/-- Every rise either recovers a loss or lifts the maximum. -/
theorem gains_eq {last peak : Int} (h : last ≤ peak) (bs : List Int) :
    gains last bs = recovered last peak bs + (bs.foldl max peak - peak) := by
  induction bs generalizing last peak with
  | nil => simp [gains, recovered]
  | cons b bs ih =>
    have hr : max (b - last) 0 = max (min b peak - last) 0 + (max peak b - peak) := by omega
    rw [gains, recovered, List.foldl_cons, ih (le_max_right peak b), hr]
    ring

theorem charged_add_dropped (rate unit last : Int) (bs : List Int) :
    unit * charged rate unit last bs + dropped rate unit last bs = rate * gains last bs := by
  induction bs generalizing last with
  | nil => simp [charged, dropped, gains]
  | cons b bs ih =>
    have hd := Int.mul_ediv_add_emod (max (b - last) 0 * rate) unit
    rw [charged, dropped, gains]
    linear_combination hd + ih b

/-- The rate charges at most the rise of the maximum exactly when what it charges on recovered
losses is lost in the rounding. -/
theorem charged_le_iff (rate unit first : Int) (bs : List Int) :
    unit * charged rate unit first bs ≤ rate * (bs.foldl max first - first) ↔
      rate * recovered first first bs ≤ dropped rate unit first bs := by
  have hs := charged_add_dropped rate unit first bs
  rw [gains_eq le_rfl, mul_add] at hs
  constructor <;> intro h <;> linarith

theorem charged_concat (rate unit last b : Int) (bs : List Int) :
    charged rate unit last (bs ++ [b]) =
      charged rate unit last bs + max (b - bs.getLastD last) 0 * rate / unit := by
  induction bs generalizing last with
  | nil => simp [charged]
  | cons c bs ih =>
    rw [List.cons_append, charged, charged, ih, List.getLastD_cons, add_assoc]

end Stow.Lib.HighWater
