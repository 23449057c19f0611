import Stow.Vault.RewardAccrual

/-! The preview of the next accrual against the accrual itself. -/
namespace Stow.Vault

open Stow.Lib Stow.Lib.Contract

/-- The loop of the preview, in which every period earns the same. -/
def previewLoop (reward : Option Int) : (remaining : Nat) → Int → Option Int
  | 0, total => some total
  | remaining + 1, total => do
    let periodReward ← reward
    let total ← checkedAdd total periodReward
    previewLoop reward remaining total

/-- What the stored streak would earn over the elapsed periods. Nothing is written, and a paused
vault answers too. -/
def accruedPreview {W : Type} (ctx : Ctx) (owner : Address) : Action W Int := do
  match ← load (·.interestAccounts.get owner) with
  | none => pure 0
  | some account =>
    match ← load (·.rewardStates.get owner) with
    | none => pure 0
    | some state =>
      let config ← load (·.rewardsConfig)
      let periods := (ctx.now - state.lastAccruedAt) / config.accrualPeriodSeconds
      let loyaltyBps := loyaltyMultiplierBps (ctx.now - account.createdAt) config
      let streakBps := streakBonusBps state.streak config
      Call.orFail (previewLoop (computePeriodReward account.principal loyaltyBps streakBps config)
        periods 0) .overflow

variable {config : RewardsConfig} {principal reward total out : Int}
  {loyaltyBps streak periods p : Nat} {state : RewardState}

theorem computePeriodReward_iff (hp : 0 < principal) :
    computePeriodReward principal loyaltyBps (streakBonusBps streak config) config = some reward ↔
      FitsI128 (bpsPart config.baseRateBps principal) ∧
      FitsI128 (loyaltyReward config principal loyaltyBps) ∧
      FitsI128 (streakReward config principal streak) ∧
      FitsI128 (loyaltyReward config principal loyaltyBps + streakReward config principal streak) ∧
      loyaltyReward config principal loyaltyBps + streakReward config principal streak =
        reward := by
  rw [computePeriodReward, loyaltyReward, streakReward]
  simp only [if_neg (not_le.mpr hp), mulDivWide_some, checked_rules]
  constructor
  · rintro ⟨_, ⟨-, hb, rfl⟩, _, ⟨-, hl, rfl⟩, _, ⟨-, hs, rfl⟩, hsm, rfl⟩
    exact ⟨hb, hl, hs, hsm, rfl⟩
  · rintro ⟨hb, hl, hs, hsm, rfl⟩
    exact ⟨_, ⟨by decide, hb, rfl⟩, _, ⟨by decide, hl, rfl⟩, _, ⟨by decide, hs, rfl⟩,
      hsm, rfl⟩

theorem previewLoop_some (h : previewLoop (some reward) periods total = some out) :
    out = total + periods * reward := by
  induction periods generalizing total with
  | zero =>
    obtain rfl := Option.some.inj h
    simp
  | succ periods ih =>
    simp only [previewLoop, checked_rules] at h
    obtain ⟨_, rfl, _, ⟨-, rfl⟩, h⟩ := h
    rw [ih h]
    push_cast
    ring

theorem previewLoop_of_fits (hr : 0 ≤ reward) (ht : 0 ≤ total)
    (hf : FitsI128 (total + periods * reward)) :
    previewLoop (some reward) periods total = some (total + periods * reward) := by
  induction periods generalizing total with
  | zero => simp [previewLoop]
  | succ periods ih =>
    have hs : total + ((periods + 1 : Nat) : Int) * reward = total + reward + periods * reward := by
      push_cast
      ring
    have hrs : 0 ≤ (periods : Int) * reward := mul_nonneg (Int.natCast_nonneg _) hr
    rw [hs] at hf ⊢
    simp only [previewLoop, checked_rules]
    exact ⟨reward, rfl, _, ⟨hf.of_le (by omega) (by omega), rfl⟩, ih (by omega) hf⟩

theorem accrueLoop_fits {rolled : RewardState} (ht : FitsI128 total)
    (h : accrueLoop config principal loyaltyBps periods p state total = some (rolled, out)) :
    FitsI128 out := by
  induction periods generalizing p state total with
  | zero =>
    simp only [accrueLoop, Option.some.injEq, Prod.mk.injEq] at h
    exact h.2 ▸ ht
  | succ periods ih =>
    simp only [accrueLoop, checked_rules] at h
    obtain ⟨_, -, _, ⟨hf, rfl⟩, h⟩ := h
    exact ih hf h

variable {account : InterestAccount} {now : Nat} {settled : RewardState} {accrued : Int}

/-- What an accrual over some period has computed on the way fits. -/
theorem accrue_fits (h : state.accrue config account now = some (settled, accrued))
    (hpr : state.periodsAt config now ≠ 0) (hp : 0 < account.principal) :
    FitsI128 accrued ∧ FitsI128 (bpsPart config.baseRateBps account.principal) ∧
      FitsI128 (loyaltyReward config account.principal
        (loyaltyMultiplierBps (now - account.createdAt) config)) := by
  obtain ⟨periods, hn⟩ := Nat.exists_eq_succ_of_ne_zero hpr
  unfold RewardState.accrue at h
  change (if state.periodsAt config now = 0 then _ else _) = _ at h
  simp only [if_neg hpr, Prod.exists, Prod.mk.injEq, checked_rules] at h
  obtain ⟨rolled, _, hl, _, -, -, rfl⟩ := h
  refine ⟨accrueLoop_fits (by decide) hl, ?_⟩
  change accrueLoop _ _ _ (state.periodsAt config now) _ _ _ = _ at hl
  simp only [hn, Nat.succ_eq_add_one, accrueLoop, checked_rules] at hl
  obtain ⟨_, hr, -⟩ := hl
  obtain ⟨hb, hly, -⟩ := (computePeriodReward_iff hp).mp hr
  exact ⟨hb, hly⟩

/-- A reward that the accrual leaves room for is computed. -/
theorem computePeriodReward_of_accrue (streak : Nat)
    (h : state.accrue config account now = some (settled, accrued))
    (hpr : state.periodsAt config now ≠ 0) :
    let loyalty := loyaltyReward config account.principal
      (loyaltyMultiplierBps (now - account.createdAt) config)
    FitsI128 accrued ∧
      (loyalty + streakReward config account.principal streak ≤ accrued →
        computePeriodReward account.principal
          (loyaltyMultiplierBps (now - account.createdAt) config) (streakBonusBps streak config)
          config =
            some (loyalty + streakReward config account.principal streak)) := by
  intro loyalty
  have hl : 0 ≤ loyalty := loyaltyReward_nonneg
  have hs : 0 ≤ streakReward config account.principal streak := streakReward_nonneg
  rcases le_or_gt account.principal 0 with hp | hp
  · have hz : accrued = 0 := by
      simp [(accrue_some h).2.1, loyaltyReward, firstStreakReward, streakReward, hp]
    refine ⟨hz ▸ by decide, fun _ => ?_⟩
    simp [computePeriodReward, loyalty, loyaltyReward, streakReward, hp]
  · obtain ⟨hf, hb, hpt⟩ := accrue_fits h hpr hp
    refine ⟨hf, fun hle => (computePeriodReward_iff hp).mpr ?_⟩
    exact ⟨hb, hpt, hf.of_le hs (by omega), hf.of_le (by omega) hle, rfl⟩

/-- With an account and a reward state, the preview is what the accrual adds exactly when the stored
streak would earn over all elapsed periods what the streak, which no later period keeps, earns in
the first one. -/
theorem preview_exact_iff {W : Type} (ctx : Ctx) (owner : Address) (account : InterestAccount)
    (state : RewardState) (s t : Sys W) (accrued : Int)
    (haccount : s.store.interestAccounts.get owner = some account)
    (hstate : s.store.rewardStates.get owner = some state)
    (h : rewardsAccrue ctx owner s = .ok (accrued, t)) :
    let config := s.store.rewardsConfig
    let periods := state.periodsAt config ctx.now
    accruedPreview ctx owner s = .ok (accrued, s) ↔
      periods * streakReward config account.principal state.streak =
        firstStreakReward config account.principal periods 0 state := by
  intro config periods
  obtain ⟨settled, hac, -⟩ := rewardsAccrue_opened h haccount
  rw [Store.rewardStateOf, hstate, Option.getD_some] at hac
  have ha := (accrue_some hac).2.1
  simp only [accruedPreview, haccount, hstate, Call.orFail_ok, bind_rules, and_true]
  change previewLoop _ periods 0 = some accrued ↔ _
  change accrued = periods * _ + firstStreakReward config account.principal periods 0 state
    at ha
  rcases Nat.eq_zero_or_pos periods with hz | hs
  · rw [hz] at ha ⊢
    simp [ha, previewLoop, firstStreakReward]
  · obtain ⟨hf, hc⟩ := computePeriodReward_of_accrue state.streak hac hs.ne'
    constructor
    · intro hp
      cases hr : computePeriodReward account.principal
        (loyaltyMultiplierBps (ctx.now - account.createdAt) config)
        (streakBonusBps state.streak config) config with
      | none =>
        obtain ⟨n, hn⟩ := Nat.exists_eq_succ_of_ne_zero hs.ne'
        rw [hr, hn] at hp
        cases hp
      | some reward =>
        rw [hr] at hp
        have ht := previewLoop_some hp
        rw [computePeriodReward_some hr, ha] at ht
        linarith
    · intro hsm
      have ht : (periods : Int) * (loyaltyReward config account.principal
          (loyaltyMultiplierBps (ctx.now - account.createdAt) config) +
          streakReward config account.principal state.streak) = accrued := by
        rw [ha, ← hsm, mul_add]
      have hnn : 0 ≤ loyaltyReward config account.principal
          (loyaltyMultiplierBps (ctx.now - account.createdAt) config) +
          streakReward config account.principal state.streak :=
        add_nonneg loyaltyReward_nonneg streakReward_nonneg
      rw [hc (ht ▸ le_mul_of_one_le_left hnn (by exact_mod_cast hs)),
        previewLoop_of_fits hnn (le_refl 0) (by rw [zero_add, ht]; exact hf), zero_add, ht]

/-- Two weeks without a streak. -/
theorem preview_exact_fortnight :
    let s := runFrom (step 0) opened [.call ⟨0, 0, []⟩ (.config (.rewardsAccrue 2))]
    accruedPreview ⟨1209600, 0, []⟩ 2 s = .ok (10000, s) :=
  (preview_exact_iff ⟨1209600, 0, []⟩ 2 _ _ _ _ 10000 rfl rfl
    (Call.ok_of_result (by decide +kernel))).mpr (by decide +kernel)

/-- Saver 2 keeps the first week, which is accrued. -/
def keptWeek : Sys World :=
  runFrom (step 0) opened [.call ⟨0, 0, [2]⟩ (.config (.rewardsPing 2)),
    .call ⟨604800, 0, []⟩ (.config (.rewardsAccrue 2))]

/-- The second week is not kept: the preview still pays its streak. -/
theorem preview_overstates :
    (accruedPreview ⟨1209600, 0, []⟩ 2 keptWeek).toOption.map Prod.fst = some 6000 ∧
      (rewardsAccrue ⟨1209600, 0, []⟩ 2 keptWeek).toOption.map Prod.fst = some 5000 := by
  decide +kernel

end Stow.Vault
