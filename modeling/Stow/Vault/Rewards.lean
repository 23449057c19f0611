import Stow.Vault.Admin

/-! Rewards on interest accounts: loyalty, streaks, and the pool that pays them. -/
namespace Stow.Vault

open Stow.Lib Stow.Lib.Contract

variable {W : Type} (H : Host W) (ctx : Ctx)

/-- `1.0×` in basis points. -/
def oneXBps : Nat := 10000

def Store.setRewardState (st : Store) (owner : Address) (state : RewardState) : Store :=
  { st with rewardStates := st.rewardStates.set owner state }

def Store.setRewardPool (st : Store) (balance : Int) : Store :=
  { st with rewardPoolBalance := balance }

/-- Tiers come in ascending order, above zero, and below the cap. -/
def tiersValid (capBps : Nat) : List LoyaltyTier → Nat → Bool
  | [], _ => true
  | tier :: rest, prevSeconds =>
    prevSeconds < tier.minSeconds && tier.multiplierBps ≤ capBps &&
      tiersValid capBps rest tier.minSeconds

def validateConfig (config : RewardsConfig) : Bool :=
  config.baseRateBps ≤ 10000 && config.accrualPeriodSeconds ≠ 0 &&
    config.streakPeriodSeconds ≠ 0 && oneXBps ≤ config.loyaltyCapBps &&
    config.loyaltyTiers.length ≤ 4 && tiersValid config.loyaltyCapBps config.loyaltyTiers 0

def rewardsSetConfig (caller : Address) (config : RewardsConfig) : Action W Unit := do
  extendInstanceTtl
  requireNotPaused
  requireAdmin H ctx caller
  Call.require (validateConfig config = true) .invalidRewardConfig
  save (fun st => { st with rewardsConfig := config })
  publish (.rewardConfigSet caller ctx.now)

def rewardsFundPool (caller : Address) (amount : Int) : Action W Unit := do
  extendInstanceTtl
  requireNotPaused
  requireAdmin H ctx caller
  transferIn H caller amount
  let newBalance ← Call.orFail (checkedAdd (← load (·.rewardPoolBalance)) amount) .overflow
  save (·.setRewardPool newBalance)
  publish (.rewardFunded caller amount newBalance ctx.now)

/-! ### Streaks -/

/-- The last moment at which activity still counts for the current streak window. -/
def RewardState.windowEnd (state : RewardState) (config : RewardsConfig) : Nat :=
  saturatingAddU64 state.streakPeriodStart config.streakPeriodSeconds

/-- The window is kept when the user shows up before its end. -/
def RewardState.touch (state : RewardState) (config : RewardsConfig) (now : Nat) : RewardState :=
  if now ≤ state.windowEnd config then { state with streakPeriodKept := true } else state

/-- Only a user who has a reward state is noted. -/
def Store.noteTouch (st : Store) (owner : Address) (now : Nat) : Store :=
  match st.rewardStates.get owner with
  | some state => st.setRewardState owner (state.touch st.rewardsConfig now)
  | none => st

def noteTouch (owner : Address) : Action W Unit := save (·.noteTouch owner ctx.now)

/-- A state that starts when the interest account was opened. -/
def RewardState.fresh (owner : Address) (start : Nat) : RewardState :=
  ⟨owner, 0, start, 0, start, false⟩

def rewardsPing (owner : Address) : Action W Unit := do
  extendInstanceTtl
  requireNotPaused
  requireAuth H ctx owner
  let account ← Call.orFail (← load (·.interestAccounts.get owner)) .notFound
  let config ← load (·.rewardsConfig)
  let stored ← load (·.rewardStates.get owner)
  let state := (stored.getD (.fresh owner account.createdAt)).touch config ctx.now
  save (·.setRewardState owner state)
  publish (.streakUpdated owner state.streak state.streakPeriodKept ctx.now)

/-! ### Accrual -/

/-- The multiplier of the last tier in the list that the age has reached. -/
def tierFor (holdSeconds : Nat) : List LoyaltyTier → Nat → Nat
  | [], best => best
  | tier :: rest, best =>
    if tier.minSeconds ≤ holdSeconds then tierFor holdSeconds rest tier.multiplierBps else best

def loyaltyMultiplierBps (holdSeconds : Nat) (config : RewardsConfig) : Nat :=
  min (tierFor holdSeconds config.loyaltyTiers oneXBps) config.loyaltyCapBps

def streakBonusBps (streak : Nat) (config : RewardsConfig) : Nat :=
  min (min (saturatingMulU64 streak config.streakBonusBpsPerPeriod) u32Max)
    config.streakBonusCapBps

/-- The reward of one accrual period. -/
def computePeriodReward (principal : Int) (loyaltyBps streakBps : Nat) (config : RewardsConfig) :
    Option Int :=
  if principal ≤ 0 then some 0
  else do
    let base ← mulDivWide principal config.baseRateBps oneXBps
    let loyaltyPart ← mulDivWide base loyaltyBps oneXBps
    let streakPart ← mulDivWide principal streakBps oneXBps
    checkedAdd loyaltyPart streakPart

/-- The streak after one accrual period that ends at `periodEnd`. A valid configuration has no
empty window. -/
def RewardState.roll (state : RewardState) (config : RewardsConfig) (periodEnd : Nat) :
    RewardState :=
  if state.windowEnd config < periodEnd then
    let windowsElapsed := (periodEnd - state.streakPeriodStart) / config.streakPeriodSeconds
    { state with
      streak := 0
      streakPeriodStart := saturatingAddU64 state.streakPeriodStart
        (saturatingMulU64 windowsElapsed config.streakPeriodSeconds)
      streakPeriodKept := false }
  else if state.streakPeriodKept then
    { state with
      streak := saturatingAddU32 state.streak 1
      streakPeriodStart := state.windowEnd config
      streakPeriodKept := false }
  else { state with streak := 0 }

/-- The loop over the elapsed periods, from period `p` on. -/
def accrueLoop (config : RewardsConfig) (principal : Int) (loyaltyBps : Nat) :
    (remaining p : Nat) → RewardState → Int → Option (RewardState × Int)
  | 0, _, state, total => some (state, total)
  | remaining + 1, p, state, total => do
    let periodStart := saturatingAddU64 state.lastAccruedAt
      (saturatingMulU64 p config.accrualPeriodSeconds)
    let rolled := state.roll config (saturatingAddU64 periodStart config.accrualPeriodSeconds)
    let reward ←
      computePeriodReward principal loyaltyBps (streakBonusBps rolled.streak config) config
    let total ← checkedAdd total reward
    accrueLoop config principal loyaltyBps remaining (p + 1) rolled total

/-- Settles the elapsed periods of an account. -/
def accrueAccount (owner : Address) (account : InterestAccount) : Action W Int := do
  let config ← load (·.rewardsConfig)
  let stored ← load (·.rewardStates.get owner)
  let state := stored.getD (.fresh owner account.createdAt)
  let periods := (ctx.now - state.lastAccruedAt) / config.accrualPeriodSeconds
  if periods = 0 then do
    save (·.setRewardState owner state)
    pure 0
  else do
    let loyaltyBps := loyaltyMultiplierBps (ctx.now - account.createdAt) config
    let (rolled, totalAccrued) ← Call.orFail
      (accrueLoop config account.principal loyaltyBps periods 0 state 0) .overflow
    let pending ← Call.orFail (checkedAdd rolled.pending totalAccrued) .overflow
    let settled := { rolled with
      lastAccruedAt := saturatingAddU64 state.lastAccruedAt
        (saturatingMulU64 periods config.accrualPeriodSeconds)
      pending := pending }
    save (·.setRewardState owner settled)
    publish (.rewardAccrued owner totalAccrued pending ctx.now)
    pure totalAccrued

/-- Anyone may settle the rewards of a user. Without an interest account there is nothing to do. -/
def rewardsAccrue (owner : Address) : Action W Int := do
  extendInstanceTtl
  requireNotPaused
  match ← load (·.interestAccounts.get owner) with
  | none => pure 0
  | some account => accrueAccount ctx owner account

/-- Pays what the pool can, and keeps the rest pending. -/
def payRewards (owner : Address) (state : RewardState) (pool payout : Int) : Action W Int := do
  let newPool ← Call.orFail (checkedSub pool payout) .overflow
  save (·.setRewardPool newPool)
  transferOut H owner payout
  let pending ← Call.orFail (checkedSub state.pending payout) .overflow
  save (·.setRewardState owner { state with pending := pending })
  publish (.rewardClaimed owner payout pending newPool ctx.now)
  pure payout

def rewardsClaim (owner : Address) : Action W Int := do
  extendInstanceTtl
  requireNotPaused
  requireAuth H ctx owner
  let _ ← rewardsAccrue ctx owner
  let stored ← load (·.rewardStates.get owner)
  let state := stored.getD (.fresh owner ctx.now)
  let pool ← load (·.rewardPoolBalance)
  let payout := min state.pending pool
  -- with nothing pending, a stored state is written back as it is
  if state.pending ≤ 0 ∨ payout ≤ 0 then pure 0
  else payRewards H ctx owner state pool payout

/-! ### What a successful call paid and wrote -/

variable {ctx} {self : Address} {s t : Sys World} {u : Unit} {owner : Address}

def Store.setRewardStates (st : Store) (states : SortedMap Address RewardState) : Store :=
  { st with rewardStates := states }

theorem noteTouch_states (st : Store) (owner : Address) (now : Nat) :
    ∃ states, st.noteTouch owner now = st.setRewardStates states := by
  unfold Store.noteTouch
  cases st.rewardStates.get owner with
  | none => exact ⟨st.rewardStates, rfl⟩
  | some state => exact ⟨_, rfl⟩

theorem rewardsFundPool_ok {caller : Address} {amount : Int}
    (h : rewardsFundPool (exact self) ctx caller amount s = .ok (u, t)) :
    caller ≠ self ∧ 0 < amount ∧ s.world.pay caller self amount = some t.world ∧
      t.store = s.store.setRewardPool (s.store.rewardPoolBalance + amount) := by
  simp only [rewardsFundPool, transferIn, entry_rules] at h
  obtain ⟨-, -, ⟨-, -, hne⟩, ⟨hp, -⟩, w, hw, _, ⟨-, rfl⟩, rfl⟩ := h
  exact ⟨hne, hp, hw, rfl⟩

/-- The reward state of a user, a fresh one from the opening of the account if none is stored. -/
def Store.rewardStateOf (st : Store) (owner : Address) (account : InterestAccount) : RewardState :=
  (st.rewardStates.get owner).getD (.fresh owner account.createdAt)

/-- What settling the elapsed periods of an account makes of its reward state, and the reward. -/
def RewardState.accrue (state : RewardState) (config : RewardsConfig) (account : InterestAccount)
    (now : Nat) : Option (RewardState × Int) :=
  let periods := (now - state.lastAccruedAt) / config.accrualPeriodSeconds
  if periods = 0 then some (state, 0)
  else do
    let loyaltyBps := loyaltyMultiplierBps (now - account.createdAt) config
    let (rolled, accrued) ← accrueLoop config account.principal loyaltyBps periods 0 state 0
    let pending ← checkedAdd rolled.pending accrued
    some ({ rolled with
      lastAccruedAt := saturatingAddU64 state.lastAccruedAt
        (saturatingMulU64 periods config.accrualPeriodSeconds)
      pending := pending }, accrued)

theorem rewardsPing_ok {W : Type} {H : Host W} {s t : Sys W}
    (h : rewardsPing H ctx owner s = .ok (u, t)) :
    ∃ account, s.store.interestAccounts.get owner = some account ∧
      t.store = s.store.setRewardState owner
        ((s.store.rewardStateOf owner account).touch s.store.rewardsConfig ctx.now) ∧
      t.world = s.world := by
  simp only [rewardsPing, entry_rules] at h
  obtain ⟨-, -, -, account, ha, rfl⟩ := h
  exact ⟨account, ha, rfl, rfl⟩

section

variable {W : Type} {s t : Sys W} {account : InterestAccount} {accrued : Int}

theorem accrueAccount_ok
    (h : accrueAccount ctx owner account s = .ok (accrued, t)) :
    ∃ state, (s.store.rewardStateOf owner account).accrue s.store.rewardsConfig account ctx.now =
        some (state, accrued) ∧
      t.store = s.store.setRewardState owner state ∧ t.world = s.world := by
  simp only [accrueAccount, bind_load] at h
  rcases Call.ite_ok.mp h with ⟨hn, h⟩ | ⟨hs, h⟩
  · simp only [bind_rules] at h
    obtain ⟨rfl, rfl⟩ := h
    exact ⟨_, if_pos hn, rfl, rfl⟩
  · simp only [Prod.exists, bind_rules] at h
    obtain ⟨rolled, total, hl, pending, hp, rfl, rfl⟩ := h
    refine ⟨_, (if_neg hs).trans ?_, rfl, rfl⟩
    exact Option.bind_eq_some_iff.mpr
      ⟨_, hl, Option.bind_eq_some_iff.mpr ⟨_, checkedAdd_some.mpr hp, rfl⟩⟩

variable (h : rewardsAccrue ctx owner s = .ok (accrued, t))

include h

theorem rewardsAccrue_ok :
    t.world = s.world ∧ ((s.store.interestAccounts.get owner = none ∧ accrued = 0 ∧
        t.store = s.store) ∨
      ∃ account state, s.store.interestAccounts.get owner = some account ∧
        (s.store.rewardStateOf owner account).accrue s.store.rewardsConfig account ctx.now =
          some (state, accrued) ∧
        t.store = s.store.setRewardState owner state) := by
  simp only [rewardsAccrue, entry_rules] at h
  obtain ⟨-, -, h⟩ := h
  cases ha : s.store.interestAccounts.get owner with
  | none =>
    simp only [ha, Call.pure_ok] at h
    obtain ⟨rfl, rfl⟩ := h
    exact ⟨rfl, .inl ⟨rfl, rfl, rfl⟩⟩
  | some account =>
    simp only [ha] at h
    obtain ⟨state, hac, hs, hw⟩ := accrueAccount_ok h
    exact ⟨hw, .inr ⟨account, state, rfl, hac, hs⟩⟩

/-- Without an account an accrual does nothing. -/
theorem rewardsAccrue_unopened (hn : s.store.interestAccounts.get owner = none) :
    accrued = 0 ∧ t.store = s.store := by
  rcases (rewardsAccrue_ok h).2 with ⟨-, hz, hs⟩ | ⟨account, -, hg, -⟩
  · exact ⟨hz, hs⟩
  · exact absurd (hg.symm.trans hn) (Option.some_ne_none account)

theorem rewardsAccrue_opened (hg : s.store.interestAccounts.get owner = some account) :
    ∃ state, (s.store.rewardStateOf owner account).accrue s.store.rewardsConfig account ctx.now =
        some (state, accrued) ∧ t.store = s.store.setRewardState owner state := by
  rcases (rewardsAccrue_ok h).2 with ⟨hn, -⟩ | ⟨_, state, hg', ha, hs⟩
  · exact absurd (hg.symm.trans hn) (Option.some_ne_none account)
  · obtain rfl := Option.some.inj (hg.symm.trans hg')
    exact ⟨state, ha, hs⟩

theorem rewardsAccrue_states : ∃ states, t.store = s.store.setRewardStates states := by
  rcases (rewardsAccrue_ok h).2 with ⟨-, -, hs⟩ | ⟨_, _, -, -, hs⟩
  · exact ⟨_, hs⟩
  · exact ⟨_, hs⟩

end

theorem payRewards_ok {state : RewardState} {pool payout paid : Int}
    (h : payRewards (exact self) ctx owner state pool payout s = .ok (paid, t)) :
    payout = paid ∧ 0 < payout ∧ s.world.pay self owner payout = some t.world ∧
      t.store = (s.store.setRewardPool (pool - payout)).setRewardState owner
        { state with pending := state.pending - payout } := by
  simp only [payRewards, transferOut, entry_rules] at h
  obtain ⟨_, ⟨-, rfl⟩, ⟨hps, -⟩, w, hw, _, ⟨-, rfl⟩, hp, rfl⟩ := h
  exact ⟨hp, hps, hw, rfl⟩

/-- A claim settles the account first, and then pays from the pool what is pending. -/
theorem rewardsClaim_writes {payout : Int}
    (h : rewardsClaim (exact self) ctx owner s = .ok (payout, t)) :
    ∃ accrued s₁, rewardsAccrue ctx owner s = .ok (accrued, s₁) ∧
      (t = s₁ ∧ payout = 0 ∧
          (((s₁.store.rewardStates.get owner).getD (.fresh owner ctx.now)).pending ≤ 0 ∨
            s.store.rewardPoolBalance ≤ 0) ∨
        ∃ state, s₁.store.rewardStates.get owner = some state ∧
          payout = min state.pending s.store.rewardPoolBalance ∧ 0 < payout ∧
          s.world.pay self owner payout = some t.world ∧
          t.store = (s₁.store.setRewardPool (s.store.rewardPoolBalance - payout)).setRewardState
            owner { state with pending := state.pending - payout }) := by
  simp only [rewardsClaim, entry_rules] at h
  obtain ⟨-, -, -, h⟩ := h
  obtain ⟨accrued, s₁, ha, h⟩ := Call.bind_ok.mp h
  obtain ⟨states, hsr⟩ := rewardsAccrue_states ha
  have hp : s₁.store.rewardPoolBalance = s.store.rewardPoolBalance := by rw [hsr]; rfl
  have hw := (rewardsAccrue_ok ha).1
  refine ⟨accrued, s₁, ha, ?_⟩
  simp only [bind_load, hp] at h
  rcases Call.ite_ok.mp h with ⟨hn, h⟩ | ⟨hs, h⟩
  · obtain ⟨rfl, rfl⟩ := Call.pure_ok.mp h
    exact .inl ⟨rfl, rfl, hn.elim .inl (fun hle => by omega)⟩
  · obtain ⟨rfl, hps, hpy, haf⟩ := payRewards_ok h
    cases hst : s₁.store.rewardStates.get owner with
    | none =>
      -- a state made up for the claim has nothing pending
      rw [hst] at hs
      exact absurd (Or.inl (le_refl _)) hs
    | some state =>
      rw [hst] at hps hpy haf
      exact .inr ⟨state, rfl, rfl, hps, hw ▸ hpy, haf⟩

/-- A claim pays from the pool or pays nothing. -/
theorem rewardsClaim_ok {payout : Int}
    (h : rewardsClaim (exact self) ctx owner s = .ok (payout, t)) :
    ∃ states, (t.store = s.store.setRewardStates states ∧ t.world = s.world) ∨
      (0 < payout ∧ payout ≤ s.store.rewardPoolBalance ∧
        s.world.pay self owner payout = some t.world ∧
        t.store = (s.store.setRewardPool (s.store.rewardPoolBalance - payout)).setRewardStates
          states) := by
  obtain ⟨_, s₁, ha, ⟨rfl, -, -⟩ | ⟨state, -, hp, hps, hpy, hst⟩⟩ :=
    rewardsClaim_writes h
  all_goals obtain ⟨states, hs⟩ := rewardsAccrue_states ha
  · exact ⟨states, .inl ⟨hs, (rewardsAccrue_ok ha).1⟩⟩
  · refine ⟨t.store.rewardStates, .inr ⟨hps, hp ▸ min_le_right _ _, hpy, ?_⟩⟩
    rw [hst, hs]
    rfl

end Stow.Vault
