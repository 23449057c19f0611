import Stow.Adapter.Strategy

/-! Harvesting a strategy's yield, the performance fee, and sweeping fees to the treasury. -/
namespace Stow.Adapter

open Stow.Lib Stow.Lib.Contract Call

variable {W : Type} (H : Host W)

/-- The wait since the last harvest saturates at `0`, as the contract's does. -/
def checkHarvestInterval (ctx : Ctx) : Action W Unit := do
  let interval ← load (·.harvestInterval)
  let last ← load (·.lastHarvestAt)
  require (interval = 0 ∨ ∀ previous ∈ last, interval ≤ ctx.now - previous) .harvestTooSoon

def performanceFee (yieldAmount : Int) (bps : Nat) : Option Int :=
  if bps = 0 then some 0
  else (checkedMul yieldAmount bps).bind (fun v => checkedDiv v 10000)

def creditFee (fee : Int) : Action W Unit :=
  if 0 < fee then do
    let newAccrued ← orFail (checkedAdd (← load (·.feesAccrued)) fee) .overflow
    save (·.setFees newAccrued)
  else pure ()

def applyPerformanceFee (yieldAmount : Int) : Action W Int := do
  require (0 < yieldAmount) .invalidAmount
  let bps ← load (·.performanceFeeBps)
  let fee ← orFail (performanceFee yieldAmount bps) .overflow
  creditFee fee
  orFail (checkedSub yieldAmount fee) .overflow

/-- The fee on a harvest's delta: none on a loss. -/
def takeFee (delta : Int) : Action W Int :=
  if 0 < delta then do
    let remainder ← applyPerformanceFee delta
    orFail (checkedSub delta remainder) .overflow
  else pure 0

def harvest (ctx : Ctx) (caller : Address) : Action W Int := do
  requireNotPaused
  checkHarvestInterval ctx
  let activeId ← orFail (← load (·.activeStrategy)) .strategyNotFound
  let info ← getStrategy activeId
  let liveBalance ← strategyBalance H info.address
  let tracked ← load (·.deployedBalance)
  let delta ← orFail (checkedSub liveBalance tracked) .overflow
  let feeTaken ← takeFee delta
  save (fun st => { st with deployedBalance := liveBalance, lastHarvestAt := some ctx.now })
  publish (.harvested caller delta feeTaken ctx.now)
  pure delta

/-- The accrued amount is cleared before the transfer. -/
def withdrawFees (ctx : Ctx) (caller : Address) : Action W Int := do
  let accrued ← load (·.feesAccrued)
  require (0 < accrued) .noFeesAccrued
  save (·.setFees 0)
  let treasury ← orFail (← load (·.treasury)) .notInitialized
  transferOut H treasury accrued
  publish (.feeCollected caller accrued ctx.now)
  pure accrued

def Store.accrue (st : Store) (fee : Int) : Store := st.setFees (st.feesAccrued + fee)

/-- The fee that a delta adds to the accrued fees at a rate. -/
def feeOn (bps : Nat) (delta : Int) : Int := if 0 < delta then (delta * bps).tdiv 10000 else 0

variable {H}

variable {fee : Int}

theorem performanceFee_some {yieldAmount : Int} {bps : Nat} (hy : 0 < yieldAmount)
    (h : performanceFee yieldAmount bps = some fee) : fee = feeOn bps yieldAmount := by
  by_cases hb : bps = 0
  · simp only [performanceFee, hb, ↓reduceIte, Option.some.injEq] at h
    simp [feeOn, hb, hy, ← h]
  · simp only [performanceFee, hb, ↓reduceIte, Option.bind_eq_some_iff, checkedMul_some,
      checkedDiv_some] at h
    obtain ⟨_, ⟨-, rfl⟩, -, -, rfl⟩ := h
    simp [feeOn, hy]

theorem feeOn_nonneg (bps : Nat) (delta : Int) : 0 ≤ feeOn bps delta := by
  unfold feeOn
  split_ifs with h
  · exact Int.tdiv_nonneg (mul_nonneg h.le (Int.natCast_nonneg bps)) (by norm_num)
  · exact le_rfl

variable {delta : Int}

/-- The fee is at most its rate of the delta. -/
theorem feeOn_mul_le {bps : Nat} (h : 0 < delta) : feeOn bps delta * 10000 ≤ delta * bps := by
  simp only [feeOn, h, ↓reduceIte]
  exact tdiv_nonneg_mul_le (mul_nonneg h.le (Int.natCast_nonneg bps)) (by norm_num)

variable {s t : Sys W}

theorem creditFee_ok {u : Unit} (hf : 0 ≤ fee) (h : creditFee fee s = .ok (u, t)) :
    t = ⟨s.store.accrue fee, s.log, s.world⟩ := by
  rcases ite_ok.mp h with ⟨-, h⟩ | ⟨hle, h⟩
  · simp only [bind_rules] at h
    obtain ⟨_, ⟨-, rfl⟩, rfl⟩ := h
    rfl
  · obtain ⟨-, rfl⟩ := pure_ok.mp h
    obtain rfl : fee = 0 := by omega
    simp [Store.accrue, Store.setFees]

theorem takeFee_ok (h : takeFee delta s = .ok (fee, t)) :
    fee = feeOn s.store.performanceFeeBps delta ∧
      t = ⟨s.store.accrue (feeOn s.store.performanceFeeBps delta), s.log, s.world⟩ := by
  rcases ite_ok.mp h with ⟨-, h⟩ | ⟨hle, h⟩
  · simp only [applyPerformanceFee, bind_rules] at h
    obtain ⟨hy, _, hf, h⟩ := h
    obtain rfl := performanceFee_some hy hf
    obtain ⟨_, s₁, hc, h⟩ := bind_ok.mp h
    obtain rfl := creditFee_ok (feeOn_nonneg _ _) hc
    simp only [orFail_ok, bind_rules] at h
    obtain ⟨_, ⟨-, rfl⟩, ⟨-, rfl⟩, rfl⟩ := h
    exact ⟨by omega, rfl⟩
  · obtain ⟨rfl, rfl⟩ := pure_ok.mp h
    simp [feeOn, hle, Store.accrue, Store.setFees]

/-- The storage after a harvest that saw the balance `live`. -/
def Store.harvested (st : Store) (now : Nat) (live : Int) : Store :=
  { st with
    feesAccrued := st.feesAccrued + feeOn st.performanceFeeBps (live - st.deployedBalance)
    deployedBalance := live
    lastHarvestAt := some now }

/-- What a successful harvest checked, called and wrote. -/
theorem harvest_ok {ctx : Ctx} {caller : Address} (h : harvest H ctx caller s = .ok (delta, t)) :
    ∃ info s₁ live, s.store.activeInfo = some info ∧
      strategyBalance H info.address s = .ok (live, s₁) ∧
      delta = live - s.store.deployedBalance ∧ t.store = s.store.harvested ctx.now live ∧
      t.world = s₁.world := by
  simp only [harvest, entry_rules] at h
  obtain ⟨-, h⟩ := h
  obtain ⟨_, _, hint, h⟩ := bind_ok.mp h
  simp only [checkHarvestInterval, bind_load, require_ok] at hint
  obtain ⟨-, rfl⟩ := hint
  simp only [getStrategy, bind_rules] at h
  obtain ⟨id, hid, info, hi, h⟩ := h
  obtain ⟨live, s₁, hl, h⟩ := bind_ok.mp h
  have hq := (strategyBalance_quiet hl).1
  simp only [hq.1, bind_rules] at h
  obtain ⟨_, ⟨-, rfl⟩, h⟩ := h
  obtain ⟨fee, s₂, hf, h⟩ := bind_ok.mp h
  obtain ⟨rfl, rfl⟩ := takeFee_ok hf
  simp only [hq.1, bind_rules] at h
  obtain ⟨rfl, rfl⟩ := h
  exact ⟨info, s₁, live, by simp [Store.activeInfo, hid, hi], hl, rfl, rfl, rfl⟩

/-- What a successful sweep checked, called and wrote. -/
theorem withdrawFees_ok {ctx : Ctx} {caller : Address} {accrued : Int}
    (h : withdrawFees H ctx caller s = .ok (accrued, t)) :
    0 < accrued ∧ accrued = s.store.feesAccrued ∧ ∃ treasury s₁,
      s.store.treasury = some treasury ∧ t.store = s.store.setFees 0 ∧
      transferOut H treasury accrued ⟨s.store.setFees 0, s.log, s.world⟩ = .ok ((), s₁) ∧
      t.world = s₁.world := by
  simp only [withdrawFees, bind_rules] at h
  obtain ⟨hp, treasury, ht, h⟩ := h
  obtain ⟨_, s₁, ho, h⟩ := bind_ok.mp h
  simp only [bind_rules] at h
  obtain ⟨rfl, rfl⟩ := h
  exact ⟨hp, rfl, treasury, s₁, ht, (transferOut_quiet ho).1, ho, rfl⟩

end Stow.Adapter
