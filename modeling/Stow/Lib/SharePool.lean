import Mathlib.Tactic.Linarith
import Mathlib.Tactic.Ring
import Mathlib.Tactic.Positivity
import Mathlib.Algebra.Order.Field.Basic

/-! A pool of assets divided into shares: how its price moves under mints and burns. -/
namespace Stow.Lib.SharePool

/-- Minting at most the fair number of shares for the assets paid in. -/
theorem price_mint {supply pool minted paid : Int} (h : minted * pool ≤ paid * supply) :
    pool * (supply + minted) ≤ (pool + paid) * supply := by
  linarith [mul_comm minted pool, mul_comm pool supply, mul_add pool supply minted,
    add_mul pool paid supply]

/-- Shares that were just minted buy back at most what was paid for them, and less by at most the
price of one share before and one unit. -/
theorem round_trip {supply pool minted paid back : Int} (hs : 0 < supply + minted)
    (hf : minted * pool ≤ paid * supply) (hfl : paid * supply < (minted + 1) * pool)
    (hb : back * (supply + minted) ≤ minted * (pool + paid))
    (hr : minted * (pool + paid) < (back + 1) * (supply + minted)) :
    back ≤ paid ∧ (paid - back - 1) * (supply + minted) < pool := by
  refine ⟨le_of_mul_le_mul_right ?_ hs, ?_⟩
  · calc back * (supply + minted) ≤ minted * pool + minted * paid := by rwa [← mul_add]
      _ ≤ paid * supply + minted * paid := by omega
      _ = paid * (supply + minted) := by ring
  · linarith

/-- Two payments one after the other mint at most the fair number for both together. -/
theorem mint_twice {supply pool minted paid more rest : Int} (hp : 0 < pool) (hpd : 0 ≤ paid)
    (hr : 0 ≤ rest) (hf : minted * pool ≤ paid * supply)
    (hs : more * (pool + paid) ≤ rest * (supply + minted)) :
    (minted + more) * pool ≤ (paid + rest) * supply := by
  have hm : more * pool ≤ rest * supply := by
    refine le_of_mul_le_mul_right ?_ (by omega : 0 < pool + paid)
    calc more * pool * (pool + paid) = more * (pool + paid) * pool := by ring
      _ ≤ rest * (supply + minted) * pool := mul_le_mul_of_nonneg_right hs hp.le
      _ = rest * (pool * (supply + minted)) := by ring
      _ ≤ rest * ((pool + paid) * supply) := mul_le_mul_of_nonneg_left (price_mint hf) hr
      _ = rest * supply * (pool + paid) := by ring
  linarith

section

variable {supply supply' pool pool' shares shares' gain : ℚ}

/-- What a share is worth; the first ones are bought one for one. -/
def price (supply pool : ℚ) : ℚ := if supply = 0 then 1 else pool / supply

/-- What lies in the pool while nobody has a share. -/
def unowned (supply pool : ℚ) : ℚ := if supply = 0 then pool else 0

/-- The most that one holder can make of their shares: what is unowned may be theirs too. -/
def stake (supply pool shares : ℚ) : ℚ := shares * price supply pool + unowned supply pool

theorem pool_eq (supply pool : ℚ) : price supply pool * supply + unowned supply pool = pool := by
  unfold price unowned
  split_ifs with h
  · simp [h]
  · rw [div_mul_cancel₀ pool h, add_zero]

theorem price_nonneg (hs : 0 ≤ supply) (hp : 0 ≤ pool) : 0 ≤ price supply pool := by
  unfold price
  split_ifs
  · norm_num
  · exact div_nonneg hp hs

theorem unowned_nonneg (hp : 0 ≤ pool) : 0 ≤ unowned supply pool := by
  unfold unowned
  split_ifs
  · exact hp
  · exact le_rfl

theorem stake_nonneg (hs : 0 ≤ supply) (hp : 0 ≤ pool) (hsh : 0 ≤ shares) :
    0 ≤ stake supply pool shares :=
  add_nonneg (mul_nonneg hsh (price_nonneg hs hp)) (unowned_nonneg hp)

/-- A pool that is worth at most `c` a share and something more gives one holder at most that. -/
theorem stake_le {c extra : ℚ} (hsh : 0 ≤ shares) (hle : shares ≤ supply) (he : 0 ≤ extra)
    (hp : pool ≤ c * supply + extra) : stake supply pool shares ≤ shares * c + extra := by
  unfold stake price unowned
  split_ifs with h
  · have h₀ : shares = 0 := le_antisymm (h ▸ hle) hsh
    rw [h, mul_zero] at hp
    simpa [h₀] using hp
  · have hps : 0 < supply := lt_of_le_of_ne (hsh.trans hle) (Ne.symm h)
    have hf : shares / supply ≤ 1 := (div_le_one hps).mpr hle
    have hfrac₀ : 0 ≤ shares / supply := div_nonneg hsh hps.le
    calc shares * (pool / supply) + 0
        = shares / supply * pool := by ring
      _ ≤ shares / supply * (c * supply + extra) := mul_le_mul_of_nonneg_left hp hfrac₀
      _ = shares * c + shares / supply * extra := by
          rw [mul_add, mul_left_comm, div_mul_cancel₀ shares h, mul_comm c]
      _ ≤ shares * c + extra := by
          have := mul_le_mul_of_nonneg_right hf he
          linarith

/-- If the pool grows by the price of the new shares and `gain`, a holder gains the price of their
own new shares and at most `gain`. -/
theorem stake_step (hp : 0 ≤ pool) (hsh : 0 ≤ shares') (hle : shares' ≤ supply')
    (hg : 0 ≤ gain)
    (hpl : pool' ≤ pool + (supply' - supply) * price supply pool + gain) :
    stake supply' pool' shares' ≤
      stake supply pool shares + (shares' - shares) * price supply pool + gain := by
  have he : 0 ≤ unowned supply pool + gain := add_nonneg (unowned_nonneg hp) hg
  have hb : pool' ≤ price supply pool * supply' + (unowned supply pool + gain) := by
    have := pool_eq supply pool
    linarith
  have := stake_le hsh hle he hb
  unfold stake at this ⊢
  linarith

end

end Stow.Lib.SharePool
