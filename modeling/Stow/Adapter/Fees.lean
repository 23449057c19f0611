import Stow.Adapter.Yield

/-! The performance fee against its double-width form, and sweeping the fees to the treasury. -/
namespace Stow.Adapter

open Stow.Lib Stow.Lib.Contract Call

/-- The fee on a yield, with a double-width product. -/
def computePerformanceFee {W : Type} (yieldAmount : Int) (bps : Nat) : Action W Int := do
  require (0 ≤ yieldAmount) .invalidAmount
  validateFeeBps bps
  mulDivFloor yieldAmount bps 10000

/-! ### The fee of a harvest -/

section

variable {W : Type} {s : Sys W} {yieldAmount : Int} {bps : Nat}

theorem feeOn_le (hpos : 0 < yieldAmount) (hbps : bps ≤ maxPerformanceFeeBps) :
    feeOn bps yieldAmount ≤ yieldAmount := by
  rw [feeOn, if_pos hpos]
  exact bpsPart_le hpos.le (hbps.trans (by decide))

section

variable (hpos : 0 < yieldAmount) (hfits : FitsI128 yieldAmount) (hbps : bps ≤ maxPerformanceFeeBps)

include hpos hfits hbps

theorem fits_feeOn : FitsI128 (feeOn bps yieldAmount) :=
  hfits.of_le (feeOn_nonneg _ _) (feeOn_le hpos hbps)

theorem computePerformanceFee_eq :
    computePerformanceFee yieldAmount bps s = .ok (feeOn bps yieldAmount, s) := by
  have hf := fits_feeOn hpos hfits hbps
  rw [feeOn, if_pos hpos] at hf ⊢
  simp only [computePerformanceFee, validateFeeBps, mulDivFloor, orFail_ok, mulDivWide_some,
    bind_rules]
  exact ⟨hpos.le, hbps, ⟨by decide, hf, trivial⟩, trivial⟩

/-- The single-width product is the only step that can fail. -/
theorem performanceFee_eq :
    performanceFee yieldAmount bps =
      if FitsI128 (yieldAmount * bps) then some (feeOn bps yieldAmount) else none := by
  have hf := fits_feeOn hpos hfits hbps
  rw [feeOn, if_pos hpos] at hf
  unfold performanceFee feeOn
  rw [if_pos hpos]
  by_cases hb : bps = 0
  · simp [hb, FitsI128, i128Min, i128Max]
  · by_cases hp : FitsI128 (yieldAmount * bps)
    · simp [hb, hp, checkedMul, checkedDiv, toI128, hf]
    · simp [hb, hp, checkedMul, toI128]

end

theorem applyPerformanceFee_eq (hpos : 0 < yieldAmount) (hfits : FitsI128 yieldAmount)
    (hbps : s.store.performanceFeeBps ≤ maxPerformanceFeeBps)
    (hf : FitsI128 (s.store.feesAccrued + feeOn s.store.performanceFeeBps yieldAmount)) :
    applyPerformanceFee yieldAmount s =
      if FitsI128 (yieldAmount * s.store.performanceFeeBps) then
        .ok (yieldAmount - feeOn s.store.performanceFeeBps yieldAmount,
          ⟨s.store.accrue (feeOn s.store.performanceFeeBps yieldAmount), s.log, s.world⟩)
      else .error (.err .overflow) := by
  have hfe := performanceFee_eq hpos hfits hbps
  have hnn := feeOn_nonneg s.store.performanceFeeBps yieldAmount
  have hle := feeOn_le hpos hbps
  split_ifs with hp
  · rw [if_pos hp] at hfe
    have hr : FitsI128 (yieldAmount - feeOn s.store.performanceFeeBps yieldAmount) :=
      hfits.of_le (by omega) (by omega)
    simp only [applyPerformanceFee, bind_rules]
    refine ⟨hpos, _, hfe, bind_ok.mpr ⟨(), _, ?_, orFail_ok.mpr
      ⟨checkedSub_some.mpr ⟨hr, rfl⟩, rfl⟩⟩⟩
    refine ite_ok.mpr ?_
    by_cases hc : 0 < feeOn s.store.performanceFeeBps yieldAmount
    · refine .inl ⟨hc, ?_⟩
      simp only [bind_rules]
      exact ⟨_, ⟨hf, rfl⟩, rfl⟩
    · refine .inr ⟨hc, pure_ok.mpr ⟨rfl, ?_⟩⟩
      simp [Store.accrue, Store.setFees,
        show feeOn s.store.performanceFeeBps yieldAmount = 0 by omega]
  · rw [if_neg hp] at hfe
    simp only [applyPerformanceFee, bind, Call.require, load, Call.read, pure, hpos, hfe,
      Call.orFail, ↓reduceIte]
    rfl

end

/-- For every yield and rate: the fee is that of the double-width form exactly while the
single-width product fits, and otherwise both the fee and the harvest overflow. -/
theorem fee_kernels_agree_iff {W : Type} (s : Sys W) (yieldAmount : Int) (hpos : 0 < yieldAmount)
    (hfits : FitsI128 yieldAmount) (hbps : s.store.performanceFeeBps ≤ maxPerformanceFeeBps) :
    ∃ fee, computePerformanceFee yieldAmount s.store.performanceFeeBps s = .ok (fee, s) ∧
      (FitsI128 (s.store.feesAccrued + fee) →
        (applyPerformanceFee yieldAmount s =
            .ok (yieldAmount - fee, ⟨s.store.accrue fee, s.log, s.world⟩) ↔
          FitsI128 (yieldAmount * s.store.performanceFeeBps)) ∧
        ∀ (H : Host W) (ctx : Ctx) (caller : Address) (info : StrategyInfo) (r : Int) (w : W),
          s.store.paused = false → checkHarvestInterval ctx s = .ok ((), s) →
          s.store.activeInfo = some info → H.strategyBalance info.address s.world = some (r, w) →
          max r 0 - s.store.deployedBalance = yieldAmount →
          (harvest H ctx caller s = .error (.err .overflow) ↔
            ¬ FitsI128 (yieldAmount * s.store.performanceFeeBps))) := by
  refine ⟨_, computePerformanceFee_eq hpos hfits hbps, fun hf => ⟨?_, ?_⟩⟩
  · rw [applyPerformanceFee_eq hpos hfits hbps hf]
    split_ifs with hp <;> simp [hp]
  · intro H ctx caller info r w hrn hin hi hr hd
    obtain ⟨id, hid, hg⟩ := Option.bind_eq_some_iff.mp hi
    have ha := applyPerformanceFee_eq (s := ⟨s.store, s.log, w⟩) hpos hfits hbps hf
    have hb : strategyBalance H info.address s = .ok (max r 0, ⟨s.store, s.log, w⟩) :=
      strategyBalance_ok.mpr ⟨r, w, hr, rfl, rfl⟩
    have hs : checkedSub (max r 0) s.store.deployedBalance = some yieldAmount :=
      checkedSub_some.mpr ⟨hd ▸ hfits, hd⟩
    rw [harvest, bind_of_ok (a := ()) (requireNotPaused_ok.mpr ⟨hrn, rfl⟩),
      bind_of_ok hin, bind_of_ok (load_ok.mpr ⟨rfl, rfl⟩),
      bind_of_ok (orFail_ok.mpr ⟨hid, rfl⟩), bind_of_ok (getStrategy_ok.mpr ⟨hg, rfl⟩),
      bind_of_ok hb, bind_of_ok (load_ok.mpr ⟨rfl, rfl⟩),
      bind_of_ok (orFail_ok.mpr ⟨hs, rfl⟩), takeFee, if_pos hpos]
    by_cases hp : FitsI128 (yieldAmount * s.store.performanceFeeBps)
    · have hrs : FitsI128 (yieldAmount -
          (yieldAmount - feeOn s.store.performanceFeeBps yieldAmount)) := by
        rw [sub_sub_cancel]
        exact fits_feeOn hpos hfits hbps
      rw [if_pos hp] at ha
      rw [bind_of_ok (bind_ok.mpr ⟨_, _, ha, orFail_ok.mpr
        ⟨checkedSub_some.mpr ⟨hrs, rfl⟩, rfl⟩⟩)]
      exact ⟨fun h => (by cases h), fun h => absurd hp h⟩
    · rw [if_neg hp] at ha
      rw [bind_of_error (bind_of_error ha)]
      exact ⟨fun _ => hp, fun _ => rfl⟩

theorem fee_on_ninety :
    ∃ fee, computePerformanceFee 90 1000 tracked = .ok (fee, tracked) ∧
      applyPerformanceFee 90 tracked =
        .ok (90 - fee, ⟨tracked.store.accrue fee, tracked.log, tracked.world⟩) := by
  obtain ⟨fee, hf, ha⟩ := fee_kernels_agree_iff tracked 90 (by decide) (by decide) (by decide)
  obtain rfl : (9 : Int) = fee := congrArg (fun r => (r.toOption.map Prod.fst).getD 0) hf
  exact ⟨9, hf, (ha (by decide)).1.mpr (by decide)⟩

/-- The strategy reports nearly all that a balance can be. -/
def reportedHuge : Sys World :=
  run (honest 0) (outside 0) genesis (trackedRun ++ [.world (.gain 7 (i128Max - 1000))])

theorem harvest_overflows :
    computePerformanceFee (i128Max - 1000) 1000 reportedHuge =
        .ok ((i128Max - 1000) / 10, reportedHuge) ∧
      harvest (honest 0) ⟨0, []⟩ 5 reportedHuge = .error (.err .overflow) := by
  exact ⟨rfl, rfl⟩

/-! ### Sweeping the fees -/

section

variable {self caller treasury : Address} {s t : Sys World} {ctx : Ctx} {accrued : Int}

/-- A sweep pays the treasury, and only what is idle can be paid. -/
theorem withdrawFees_swept (ht : s.store.treasury = some treasury)
    (h : withdrawFees (honest self) ctx caller s = .ok (accrued, t)) :
    t.store = s.store.setFees 0 ∧ s.store.feesAccrued ≤ s.idle self ∧
      s.world.tokens.transfer self treasury s.store.feesAccrued = some t.world.tokens ∧
      t.net self = s.net self + if treasury = self then s.store.feesAccrued else 0 := by
  obtain ⟨-, rfl, _, s₁, htr, hst, ho, hw⟩ := withdrawFees_ok h
  obtain rfl := Option.some.inj (ht.symm.trans htr)
  obtain ⟨hst₁, hc, hle, hi⟩ := transferOut_honest ho
  obtain ⟨-, token, w, -, hp, rfl⟩ := transferOut_ok.mp ho
  obtain ⟨l, hl, rfl⟩ := Option.map_eq_some_iff.mp hp
  obtain ⟨hlv, -⟩ := Sys.live_congr (s := s) (t := t) self (by rw [hst]; rfl) (by rw [hw])
  have hi' : t.idle self =
      if treasury = self then s.idle self else s.idle self - s.store.feesAccrued :=
    (Sys.idle_congr (by rw [hst]) (by rw [hw])).trans hi
  refine ⟨hst, hle, by rw [hw]; exact hl, ?_⟩
  simp only [Sys.net, Sys.gross, Store.liabilities, hlv, hi', hst, Store.setFees]
  split_ifs <;> omega

end

/-- In every state that covers the fees and the reservation: the sweep pays exactly the fees to the
treasury and leaves all else alone exactly when they are idle and the treasury is someone else. -/
theorem fees_swept_iff (self : Address) (s : Sys World) (ctx : Ctx) (caller treasury : Address)
    (hfees : 0 < s.store.feesAccrued) (htreasury : s.store.treasury = some treasury)
    (hcovered : s.Covered self) :
    (∃ t, withdrawFees (honest self) ctx caller s = .ok (s.store.feesAccrued, t) ∧
      s.world.tokens.transfer self treasury s.store.feesAccrued = some t.world.tokens ∧
      t.store = s.store.setFees 0 ∧ t.pool self = s.pool self) ↔
    s.store.feesAccrued ≤ s.idle self ∧ treasury ≠ self := by
  have hnt := Sys.covered_iff.mp hcovered
  constructor
  · rintro ⟨t, h, -, -, hp⟩
    obtain ⟨-, hle, -, hn'⟩ := withdrawFees_swept htreasury h
    refine ⟨hle, fun hs => ?_⟩
    rw [if_pos hs] at hn'
    unfold Sys.pool at hp
    omega
  · rintro ⟨hle, hs⟩
    have ht : s.store.token ≠ none := by
      intro hn
      rw [Sys.idle, if_pos hn] at hle
      omega
    obtain ⟨t, ho⟩ := transferOut_honest_ok (s := ⟨s.store.setFees 0, s.log, s.world⟩)
      treasury ht hfees hle
    have h : withdrawFees (honest self) ctx caller s = .ok (s.store.feesAccrued,
        ⟨t.store, t.log ++ [.feeCollected caller s.store.feesAccrued ctx.now], t.world⟩) := by
      simp only [withdrawFees, bind_rules]
      exact ⟨hfees, treasury, htreasury, bind_ok.mpr ⟨(), t, ho, by simp⟩⟩
    obtain ⟨hst, -, hpd, hn'⟩ := withdrawFees_swept htreasury h
    rw [if_neg hs, add_zero] at hn'
    exact ⟨_, h, hpd, hst, by rw [Sys.pool, hn', Sys.pool]⟩

/-- The strategy gains a thousand, and a tenth of it is harvested for the treasury. -/
def accruedRun : List (Move Outside) := trackedRun ++ harvestedAfter [1000]

theorem fees_swept_when_idle :
    let s := run (honest 0) (outside 0) genesis (accruedRun ++ [.world (.donate 100)])
    ∃ t, withdrawFees (honest 0) ⟨0, []⟩ 5 s = .ok (100, t) ∧
      s.world.tokens.transfer 0 2 100 = some t.world.tokens ∧ t.store = s.store.setFees 0 ∧
      t.pool 0 = s.pool 0 :=
  (fees_swept_iff 0 _ ⟨0, []⟩ 5 2 (by decide) rfl (by decide)).mpr (by decide)

/-- All that the adapter holds is in the strategy. -/
theorem fees_stuck :
    let s := run (honest 0) (outside 0) genesis accruedRun
    s.store.feesAccrued = 100 ∧ s.Covered 0 ∧
      withdrawFees (honest 0) ⟨0, []⟩ 5 s = .error .trap :=
  ⟨rfl, by decide, rfl⟩

end Stow.Adapter
