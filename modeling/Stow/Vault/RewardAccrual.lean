import Stow.Vault.Frame

/-! What accruing rewards adds up to, and what it depends on. -/
namespace Stow.Vault

open Stow.Lib Stow.Lib.Contract Option

/-! ### The reward of one period -/

/-- The part of the reward that the principal and its age earn. -/
def loyaltyReward (config : RewardsConfig) (principal : Int) (loyaltyBps : Nat) : Int :=
  if principal ≤ 0 then 0 else bpsPart loyaltyBps (bpsPart config.baseRateBps principal)

/-- The part of the reward that the streak earns. -/
def streakReward (config : RewardsConfig) (principal : Int) (streak : Nat) : Int :=
  if principal ≤ 0 then 0 else bpsPart (streakBonusBps streak config) principal

variable {config : RewardsConfig} {principal : Int} {loyaltyBps streak : Nat}

theorem computePeriodReward_some {reward : Int}
    (h : computePeriodReward principal loyaltyBps (streakBonusBps streak config) config =
      some reward) :
    reward = loyaltyReward config principal loyaltyBps + streakReward config principal streak := by
  unfold computePeriodReward at h
  unfold loyaltyReward streakReward
  split_ifs at h ⊢
  · obtain rfl := some.inj h
    rfl
  · simp only [mulDivWide_some, checked_rules] at h
    obtain ⟨_, ⟨-, -, rfl⟩, _, ⟨-, -, rfl⟩, _, ⟨-, -, rfl⟩, -, rfl⟩ := h
    rfl

theorem loyaltyReward_nonneg : 0 ≤ loyaltyReward config principal loyaltyBps := by
  unfold loyaltyReward
  split_ifs with hp
  · exact le_refl 0
  · exact bpsPart_nonneg (bpsPart_nonneg (not_le.mp hp).le)

theorem streakReward_nonneg : 0 ≤ streakReward config principal streak := by
  unfold streakReward
  split_ifs with hp
  · exact le_refl 0
  · exact bpsPart_nonneg (not_le.mp hp).le

theorem bpsPart_mono {bps : Nat} {a b : Int} (ha : 0 ≤ a) (hab : a ≤ b) :
    bpsPart bps a ≤ bpsPart bps b := by
  have hm : a * (bps : Int) ≤ b * bps := mul_le_mul_of_nonneg_right hab (Int.natCast_nonneg bps)
  have hnn : 0 ≤ a * (bps : Int) := mul_nonneg ha (Int.natCast_nonneg bps)
  rw [bpsPart, bpsPart, Int.tdiv_eq_ediv_of_nonneg hnn, Int.tdiv_eq_ediv_of_nonneg (hnn.trans hm)]
  exact Int.ediv_le_ediv (by norm_num) hm

theorem loyaltyReward_mono {p q : Int} (h : p ≤ q) :
    loyaltyReward config p loyaltyBps ≤ loyaltyReward config q loyaltyBps := by
  by_cases hp : p ≤ 0
  · rw [loyaltyReward, if_pos hp]
    exact loyaltyReward_nonneg
  · have hp0 : 0 ≤ p := (not_le.mp hp).le
    rw [loyaltyReward, loyaltyReward, if_neg hp, if_neg (by omega)]
    exact bpsPart_mono (bpsPart_nonneg hp0) (bpsPart_mono hp0 h)

theorem streakReward_mono {p q : Int} (h : p ≤ q) :
    streakReward config p streak ≤ streakReward config q streak := by
  by_cases hp : p ≤ 0
  · rw [streakReward, if_pos hp]
    exact streakReward_nonneg
  · rw [streakReward, streakReward, if_neg hp, if_neg (by omega)]
    exact bpsPart_mono (not_le.mp hp).le h

theorem streakReward_zero : streakReward config principal 0 = 0 := by
  simp [streakReward, streakBonusBps, saturatingMulU64, bpsPart]

/-! ### Rolling the streak window -/

variable {state : RewardState} {periodEnd : Nat}

@[simp] theorem roll_pending : (state.roll config periodEnd).pending = state.pending := by
  unfold RewardState.roll
  split_ifs <;> rfl

@[simp] theorem roll_lastAccruedAt :
    (state.roll config periodEnd).lastAccruedAt = state.lastAccruedAt := by
  unfold RewardState.roll
  split_ifs <;> rfl

/-- A window that is kept is used up by the period that counts it. -/
@[simp] theorem roll_kept : (state.roll config periodEnd).streakPeriodKept = false := by
  unfold RewardState.roll
  split_ifs with he hk
  · rfl
  · rfl
  · exact Bool.not_eq_true _ ▸ hk

theorem roll_streak_of_unkept (h : state.streakPeriodKept = false) :
    (state.roll config periodEnd).streak = 0 := by
  unfold RewardState.roll
  split_ifs with he hk
  · rfl
  · exact absurd (h.symm.trans hk) Bool.false_ne_true
  · rfl

/-- The reward state after periods that end one after another from `start` on. -/
def rollPeriods (config : RewardsConfig) : (periods start : Nat) → RewardState → RewardState
  | 0, _, state => state
  | periods + 1, start, state =>
    rollPeriods config periods (start + config.accrualPeriodSeconds)
      (state.roll config (start + config.accrualPeriodSeconds))

theorem rollPeriods_add (m n start : Nat) (state : RewardState) :
    rollPeriods config (m + n) start state =
      rollPeriods config n (start + m * config.accrualPeriodSeconds)
        (rollPeriods config m start state) := by
  induction m generalizing start state with
  | zero => simp [rollPeriods]
  | succ m ih =>
    rw [Nat.add_right_comm, rollPeriods, ih, rollPeriods, Nat.succ_mul]
    congr 1
    omega

/-- Rolling does not look at what is pending or when it was accrued. -/
theorem roll_settled (pending : Int) (lastAccruedAt : Nat) :
    ({ state with pending := pending, lastAccruedAt := lastAccruedAt } : RewardState).roll config
        periodEnd =
      { state.roll config periodEnd with pending := pending, lastAccruedAt := lastAccruedAt } := by
  unfold RewardState.roll
  split_ifs <;> first | rfl | contradiction

theorem rollPeriods_settled (pending : Int) (lastAccruedAt periods start : Nat)
    (state : RewardState) :
    rollPeriods config periods start
        { state with pending := pending, lastAccruedAt := lastAccruedAt } =
      { rollPeriods config periods start state with
        pending := pending, lastAccruedAt := lastAccruedAt } := by
  induction periods generalizing start state with
  | zero => rfl
  | succ periods ih => rw [rollPeriods, roll_settled, ih, rollPeriods]

theorem rollPeriods_kept (periods start : Nat) (h : 0 < periods) :
    (rollPeriods config periods start state).streakPeriodKept = false := by
  obtain ⟨n, rfl⟩ := Nat.exists_eq_add_one.mpr h
  rw [rollPeriods_add]
  exact roll_kept

/-- From the second period on the window cannot be kept. -/
theorem rollPeriods_streak {start : Nat} (periods : Nat) :
    (rollPeriods config (periods + 2) start state).streak = 0 := by
  rw [← Nat.add_assoc periods 1 1, rollPeriods_add]
  exact roll_streak_of_unkept (rollPeriods_kept _ _ (Nat.succ_pos _))

/-! ### The loop -/

/-- The end of period `p`, as the loop computes it. -/
def periodEndAt (config : RewardsConfig) (state : RewardState) (p : Nat) : Nat :=
  saturatingAddU64 (saturatingAddU64 state.lastAccruedAt
    (saturatingMulU64 p config.accrualPeriodSeconds)) config.accrualPeriodSeconds

/-- What the streak earns over the periods: something in the first one only. -/
def firstStreakReward (config : RewardsConfig) (principal : Int) (periods p : Nat)
    (state : RewardState) : Int :=
  if periods = 0 then 0
  else streakReward config principal (state.roll config (periodEndAt config state p)).streak

variable {periods p : Nat}

theorem firstStreakReward_of_unkept (h : state.streakPeriodKept = false) :
    firstStreakReward config principal periods p state = 0 := by
  unfold firstStreakReward
  split_ifs
  · rfl
  · rw [roll_streak_of_unkept h, streakReward_zero]

/-- While the times fit, the loop rolls the window at the ends of the periods. -/
theorem accrueLoop_some {total total' : Int} {rolled : RewardState}
    (h : accrueLoop config principal loyaltyBps periods p state total = some (rolled, total')) :
    rolled.pending = state.pending ∧
      total' = total + periods * loyaltyReward config principal loyaltyBps +
        firstStreakReward config principal periods p state ∧
      (state.lastAccruedAt + (p + periods) * config.accrualPeriodSeconds ≤ u64Max →
        rolled = rollPeriods config periods
          (state.lastAccruedAt + p * config.accrualPeriodSeconds) state) := by
  induction periods generalizing p state total with
  | zero =>
    simp only [accrueLoop, some.injEq, Prod.mk.injEq] at h
    obtain ⟨rfl, rfl⟩ := h
    simp [firstStreakReward, rollPeriods]
  | succ periods ih =>
    simp only [accrueLoop, checked_rules] at h
    obtain ⟨reward, hr, _, ⟨-, rfl⟩, h⟩ := h
    obtain ⟨hp, ht, hrl⟩ := ih h
    refine ⟨hp.trans roll_pending, ?_, ?_⟩
    · rw [ht, firstStreakReward_of_unkept roll_kept, computePeriodReward_some hr,
        firstStreakReward, if_neg (Nat.succ_ne_zero periods), periodEndAt]
      push_cast
      ring
    · intro hft
      have hs : (p + (periods + 1)) * config.accrualPeriodSeconds =
          p * config.accrualPeriodSeconds + config.accrualPeriodSeconds +
            periods * config.accrualPeriodSeconds := by ring
      have he : periodEndAt config state p =
          state.lastAccruedAt + p * config.accrualPeriodSeconds + config.accrualPeriodSeconds := by
        unfold periodEndAt saturatingAddU64 saturatingMulU64
        omega
      have hn : (p + 1) * config.accrualPeriodSeconds =
          p * config.accrualPeriodSeconds + config.accrualPeriodSeconds := by ring
      rw [hrl (by rwa [roll_lastAccruedAt, Nat.add_assoc p, Nat.add_comm 1]), rollPeriods,
        roll_lastAccruedAt, hn, ← Nat.add_assoc, ← he]
      rfl

/-! ### One accrual -/

/-- The whole accrual periods since the last accrual. -/
def RewardState.periodsAt (state : RewardState) (config : RewardsConfig) (now : Nat) : Nat :=
  (now - state.lastAccruedAt) / config.accrualPeriodSeconds

variable {account : InterestAccount} {now : Nat} {settled : RewardState} {accrued : Int}

/-- Every elapsed period earns the same for the principal, the streak is paid for once, and the
window is rolled over the elapsed periods. -/
theorem accrue_some (h : state.accrue config account now = some (settled, accrued)) :
    settled.pending = state.pending + accrued ∧
      accrued = state.periodsAt config now * loyaltyReward config account.principal
          (loyaltyMultiplierBps (now - account.createdAt) config) +
        firstStreakReward config account.principal (state.periodsAt config now) 0 state ∧
      (now ≤ u64Max →
        settled = { rollPeriods config (state.periodsAt config now) state.lastAccruedAt state with
          pending := state.pending + accrued
          lastAccruedAt :=
            state.lastAccruedAt + state.periodsAt config now * config.accrualPeriodSeconds }) := by
  unfold RewardState.accrue at h
  change (if state.periodsAt config now = 0 then _ else _) = _ at h
  split_ifs at h with hz
  · obtain ⟨rfl, rfl⟩ := Prod.mk.inj (some.inj h)
    simp [hz, firstStreakReward, rollPeriods]
  · simp only [Prod.exists, Prod.mk.injEq, checked_rules] at h
    obtain ⟨rolled, _, hlp, _, ⟨-, rfl⟩, rfl, rfl⟩ := h
    have hlp : accrueLoop _ _ _ (state.periodsAt config now) 0 state 0 = _ := hlp
    obtain ⟨hpn, ht, hr⟩ := accrueLoop_some hlp
    refine ⟨by rw [hpn], by rw [ht, zero_add], fun hnow => ?_⟩
    -- some period has elapsed, so the last accrual lies in the past and the sums stay below now
    have he : state.periodsAt config now * config.accrualPeriodSeconds ≤
        now - state.lastAccruedAt := Nat.div_mul_le_self _ _
    have hp : state.lastAccruedAt ≤ now := by
      by_contra hlt
      refine hz ?_
      rw [RewardState.periodsAt, Nat.sub_eq_zero_of_le (not_le.mp hlt).le, Nat.zero_div]
    have hl : saturatingAddU64 state.lastAccruedAt (saturatingMulU64
        (state.periodsAt config now) config.accrualPeriodSeconds) =
        state.lastAccruedAt + state.periodsAt config now * config.accrualPeriodSeconds := by
      unfold saturatingAddU64 saturatingMulU64
      omega
    rw [Nat.zero_add, Nat.zero_mul, Nat.add_zero] at hr
    rw [← hpn, ← hl, ← hr (by omega)]
    rfl

theorem accrue_nonneg (h : state.accrue config account now = some (settled, accrued)) :
    0 ≤ accrued := by
  rw [(accrue_some h).2.1]
  refine add_nonneg (mul_nonneg (Int.natCast_nonneg _) loyaltyReward_nonneg) ?_
  unfold firstStreakReward
  split_ifs
  · exact le_refl 0
  · exact streakReward_nonneg

/-! ### What a call does to the rewards of one user -/

/-- What a call is to the rewards of a user. -/
inductive RewardRole where
  | ping | move | settle | other
  deriving Repr, DecidableEq

def Op.rewardRole (owner : Address) : Op → RewardRole
  | .config (.rewardsPing user) => if user = owner then .ping else .other
  | .interestDeposit user _ | .interestWithdraw user _ => if user = owner then .move else .other
  | .config (.rewardsAccrue user) | .rewardsClaim user => if user = owner then .settle else .other
  | _ => .other

/-- The state after a payout. -/
def RewardState.less (state : RewardState) (paid : Int) : RewardState :=
  { state with pending := state.pending - paid }

theorem less_zero (state : RewardState) : state.less 0 = state := by
  simp [RewardState.less]

theorem less_less (state : RewardState) (paid paid' : Int) :
    (state.less paid).less paid' = state.less (paid + paid') := by
  simp [RewardState.less, sub_sub]

/-- The effect of a successful call on the account and the reward state of a user. -/
def RewardRole.Effect (role : RewardRole) (ctx : Ctx) (owner : Address) (a b : Store) : Prop :=
  match role with
  | .ping => ∃ account, a.interestAccounts.get owner = some account ∧
      b.interestAccounts.get owner = some account ∧
      b.rewardStates.get owner =
        some ((a.rewardStateOf owner account).touch a.rewardsConfig ctx.now)
  | .move => ∃ account, b.interestAccounts.get owner = some account ∧
      account.createdAt = (a.interestOf owner ctx.now).createdAt ∧
      b.rewardStates.get owner =
        (a.rewardStates.get owner).map (·.touch a.rewardsConfig ctx.now)
  | .settle => b.interestAccounts.get owner = a.interestAccounts.get owner ∧ ∃ paid,
      (a.interestAccounts.get owner = none ∧
          b.rewardStates.get owner = (a.rewardStates.get owner).map (·.less paid)) ∨
        ∃ account state accrued, a.interestAccounts.get owner = some account ∧
          (a.rewardStateOf owner account).accrue a.rewardsConfig account ctx.now =
            some (state, accrued) ∧
          b.rewardStates.get owner = some (state.less paid)
  | .other => b.rewardStates.get owner = a.rewardStates.get owner ∧
      (b.interestAccounts.get owner).map (·.createdAt) =
        (a.interestAccounts.get owner).map (·.createdAt)

theorem noteTouch_interestAccounts (st : Store) (owner : Address) (now : Nat) :
    (st.noteTouch owner now).interestAccounts = st.interestAccounts := by
  unfold Store.noteTouch
  cases st.rewardStates.get owner <;> rfl

theorem noteTouch_get (st : Store) (user owner : Address) (now : Nat) :
    (st.noteTouch user now).rewardStates.get owner =
      if owner = user then (st.rewardStates.get owner).map (·.touch st.rewardsConfig now)
      else st.rewardStates.get owner := by
  unfold Store.noteTouch
  cases hg : st.rewardStates.get user with
  | none =>
    split_ifs with ho
    · rw [ho, hg]
      rfl
    · rfl
  | some state =>
    simp only [Store.setRewardState, SortedMap.get_set]
    split_ifs with ho
    · rw [ho, hg]
      rfl
    · rfl

theorem settle_createdAt {account settled : InterestAccount} {now : Nat} {credited : Int}
    (h : settle account now = some (settled, credited)) :
    settled.createdAt = account.createdAt := by
  obtain ⟨_, -, -, rfl⟩ := settle_some h
  rfl

/-- A settled account is written back and counted as activity. -/
theorem move_effect {ctx : Ctx} {user owner : Address} {a b : Store} {settled : InterestAccount}
    {principal : Int} {role : RewardRole}
    (hr : role = if user = owner then .move else .other)
    (hc : settled.createdAt = (a.interestOf user ctx.now).createdAt)
    (hst : b = (a.setInterest user
      (settled.adopt a principal ctx.now)).noteTouch user ctx.now) :
    role.Effect ctx owner a b := by
  have ha : b.interestAccounts.get owner =
      if owner = user then some (settled.adopt a principal ctx.now)
      else a.interestAccounts.get owner := by
    rw [hst, noteTouch_interestAccounts, Store.setInterest, SortedMap.get_set]
  have hs := hst ▸ noteTouch_get
    (a.setInterest user (settled.adopt a principal ctx.now)) user owner ctx.now
  subst hr
  by_cases ho : owner = user
  · subst ho
    rw [if_pos rfl] at ha hs
    rw [if_pos rfl]
    exact ⟨_, ha, hc, hs⟩
  · rw [if_neg ho] at ha hs
    rw [if_neg (Ne.symm ho)]
    exact ⟨hs, by rw [ha]⟩

theorem setRewardState_get (st : Store) (user owner : Address) (state : RewardState) :
    (st.setRewardState user state).rewardStates.get owner =
      if owner = user then some state else st.rewardStates.get owner :=
  SortedMap.get_set _ _ _ _

variable {ctx : Ctx} {self : Address} {s t : Sys World} {u : Unit}

theorem config_effect (self : Address) {op : ConfigOp} {owner : Address} {a b : Store}
    (h : op.Writes self ctx a b) (hs : a.SameRecords b) :
    ((Op.config op).rewardRole owner).Effect ctx owner a b := by
  have hac := hs.interestAccounts
  cases op with
  | rewardsPing user =>
    obtain ⟨account, ha, rfl⟩ := h
    simp only [Op.rewardRole]
    split_ifs with ho
    · subst ho
      exact ⟨account, ha, ha, (setRewardState_get _ _ _ _).trans (if_pos rfl)⟩
    · exact ⟨(setRewardState_get _ _ _ _).trans (if_neg (Ne.symm ho)), rfl⟩
  | rewardsAccrue user =>
    simp only [Op.rewardRole]
    rcases h with ⟨hn, rfl⟩ | ⟨account, state, accrued, ha, har, rfl⟩
    · split_ifs with ho
      · subst ho
        refine ⟨rfl, 0, .inl ⟨hn, ?_⟩⟩
        simp only [less_zero, map_id']
      · exact ⟨rfl, rfl⟩
    · split_ifs with ho
      · subst ho
        refine ⟨rfl, 0, .inr ⟨account, state, accrued, ha, har, ?_⟩⟩
        rw [setRewardState_get, if_pos rfl, less_zero]
      · exact ⟨(setRewardState_get _ _ _ _).trans (if_neg (Ne.symm ho)), rfl⟩
  | rewardsSetConfig caller config =>
    obtain ⟨-, rfl⟩ := h
    exact ⟨rfl, rfl⟩
  | _ =>
    have hr := h.rewardRecords rfl
    simp only [Store.rewardRecords, Prod.mk.injEq] at hr
    exact ⟨by rw [hr.2.2], by rw [hac]⟩

theorem claim_effect {user owner : Address} {payout : Int}
    (h : rewardsClaim (exact self) ctx user s = .ok (payout, t)) :
    ((Op.rewardsClaim user).rewardRole owner).Effect ctx owner s.store t.store := by
  obtain ⟨accrued, s₁, har, hc⟩ := rewardsClaim_writes h
  have he : ((Op.config (.rewardsAccrue user)).rewardRole owner).Effect ctx owner s.store
      s₁.store := by
    rcases (rewardsAccrue_ok har).2 with ⟨hn, -, hsr⟩ | ⟨account, state, hg, hs, hsr⟩
    · exact config_effect self (.inl ⟨hn, hsr⟩) (hsr ▸ .of_records rfl .rfl id)
    · exact config_effect self (.inr ⟨account, state, _, hg, hs, hsr⟩)
        (hsr ▸ .of_records rfl .rfl id)
  rcases hc with ⟨rfl, -, -⟩ | ⟨state, hst, -, -, -, hsr⟩
  · exact he
  · -- what is paid is taken off the state that was just settled
    have ha : t.store.interestAccounts = s₁.store.interestAccounts := by rw [hsr]; rfl
    have hg : t.store.rewardStates.get owner =
        if owner = user then some { state with pending := state.pending - payout }
        else s₁.store.rewardStates.get owner := by
      rw [hsr]
      exact setRewardState_get _ _ _ _
    simp only [Op.rewardRole] at he ⊢
    split_ifs at he ⊢ with ho
    · subst ho
      rw [if_pos rfl] at hg
      refine ⟨ha ▸ he.1, ?_⟩
      obtain ⟨paid, ⟨hn, hk⟩ | ⟨account, settled, accrued, hac, hs, hsl⟩⟩ :=
        he.2
      · refine ⟨paid + payout, .inl ⟨hn, ?_⟩⟩
        obtain ⟨old, hold, rfl⟩ := map_eq_some_iff.mp (hk.symm.trans hst)
        rw [hg, hold, map_some, ← less_less]
        rfl
      · refine ⟨paid + payout, .inr ⟨account, settled, accrued, hac, hs, ?_⟩⟩
        obtain rfl := some.inj (hst.symm.trans hsl)
        rw [hg, ← less_less]
        rfl
    · exact ⟨hg.trans ((if_neg (Ne.symm ho)).trans he.1), ha ▸ he.2⟩

/-- What a successful call does to the rewards of a user depends on its role only. -/
theorem exec_effect {op : Op} (owner : Address) (h : op.exec (exact self) ctx s = .ok (u, t)) :
    (op.rewardRole owner).Effect ctx owner s.store t.store := by
  cases op with
  | config op => exact config_effect self (ConfigOp.exec_writes h).1 (ConfigOp.exec_ok h).1
  | interestDeposit user amount =>
    obtain ⟨-, -, settled, _, _, hs, -, hst, -⟩ := interestDeposit_ok h
    exact move_effect rfl (settle_createdAt hs) hst
  | interestWithdraw user amount =>
    obtain ⟨-, account, settled, _, _, hg, hs, -, -, hst, -⟩ := interestWithdraw_ok h
    refine move_effect rfl ?_ hst
    rw [settle_createdAt hs, interestOf_some ctx.now hg]
  | interestClaim user =>
    obtain ⟨_, h⟩ := of_void h
    obtain ⟨account, settled, hg, hs, -, hst⟩ := interestClaim_ok h
    refine ⟨by rw [hst]; rfl, ?_⟩
    rw [hst, Store.setInterest, SortedMap.get_set]
    split_ifs with ho
    · rw [ho, hg, map_some, map_some, ← settle_createdAt hs]
      rfl
    · rfl
  | rewardsClaim user =>
    obtain ⟨_, h⟩ := of_void h
    exact claim_effect h
  | rewardsFundPool caller amount =>
    obtain ⟨-, -, -, hst⟩ := rewardsFundPool_ok h
    exact hst ▸ ⟨rfl, rfl⟩
  | _ =>
    have hr := (exec_frame h).rewards rfl
    simp only [Store.rewardRecords, Prod.mk.injEq] at hr
    exact ⟨by rw [hr.2.2], by rw [(exec_frame h).interest rfl]⟩

/-! ### Accruing early -/

/-- The same account, reward state and configuration: nothing happened to the owner. -/
structure Store.SameRewards (owner : Address) (a b : Store) : Prop where
  config : b.rewardsConfig = a.rewardsConfig
  account : b.interestAccounts.get owner = a.interestAccounts.get owner
  state : b.rewardStates.get owner = a.rewardStates.get owner

/-- The loyalty part of a period, at the multiplier of the age the account has now. -/
def loyaltyAt (config : RewardsConfig) (account : InterestAccount) (now : Nat) : Int :=
  loyaltyReward config account.principal (loyaltyMultiplierBps (now - account.createdAt) config)

variable {now₁ now₂ : Nat} {settled₁ : RewardState}

theorem periodsAt_accrued (hl : settled₁.lastAccruedAt =
      state.lastAccruedAt + state.periodsAt config now₁ * config.accrualPeriodSeconds) :
    settled₁.periodsAt config now₂ = state.periodsAt config now₂ - state.periodsAt config now₁ := by
  rw [RewardState.periodsAt, hl, ← Nat.sub_sub, Nat.mul_comm, Nat.sub_mul_div]
  rfl

theorem periodsAt_mono (state : RewardState) (config : RewardsConfig) (h : now₁ ≤ now₂) :
    state.periodsAt config now₁ ≤ state.periodsAt config now₂ :=
  Nat.div_le_div_right (Nat.sub_le_sub_right h _)

section

variable {settled₂ : RewardState} {accrued₁ accrued₂ : Int} (hle : now₁ ≤ now₂)
  (hnow : now₂ ≤ u64Max) (hf : state.accrue config account now₁ = some (settled₁, accrued₁))
  (hsc : settled₁.accrue config account now₂ = some (settled₂, accrued₂))
  (honce : state.accrue config account now₂ = some (settled, accrued))

include hle hnow hf hsc honce

/-- The windows roll the same in two accruals as in one, so only what is pending can differ. -/
theorem accrue_twice_state : settled₂ = settled ↔ accrued₁ + accrued₂ = accrued := by
  have hstate₁ := (accrue_some hf).2.2 (hle.trans hnow)
  have hstate₂ := (accrue_some hsc).2.2 hnow
  have hs := (accrue_some honce).2.2 hnow
  rw [periodsAt_accrued (by rw [hstate₁])] at hstate₂
  have hw : settled₂ = { settled with pending := state.pending + accrued₁ + accrued₂ } := by
    rw [hstate₂, hs, hstate₁, rollPeriods_settled,
      ← Nat.add_sub_cancel' (periodsAt_mono state config hle), rollPeriods_add]
    simp only [Nat.add_sub_cancel_left, Nat.add_mul, Nat.add_assoc]
  rw [hw, hs]
  simp only [RewardState.mk.injEq, true_and, and_true]
  omega

/-- Two accruals add up to one exactly when they pay the early periods the same. -/
theorem accrue_twice :
    settled₂ = settled ↔ state.periodsAt config now₁ = 0 ∨
      loyaltyAt config account now₁ = loyaltyAt config account now₂ := by
  have hstate₁ := (accrue_some hf).2.2 (hle.trans hnow)
  have hp : settled₁.periodsAt config now₂ =
      state.periodsAt config now₂ - state.periodsAt config now₁ :=
    periodsAt_accrued (by rw [hstate₁])
  have hm := periodsAt_mono state config hle
  have hreward₁ := (accrue_some hf).2.1
  have hreward₂ := (accrue_some hsc).2.1
  have hr := (accrue_some honce).2.1
  rw [accrue_twice_state hle hnow hf hsc honce]
  rw [hp] at hreward₂
  generalize state.periodsAt config now₁ = n₁ at *
  generalize state.periodsAt config now₂ = n at *
  have hsp : ((n - n₁ : Nat) : Int) = n - n₁ := by omega
  rw [hreward₁, hreward₂, hr, hsp]
  by_cases hz : n₁ = 0
  · subst hz
    have hs : settled₁ = state := by
      rw [hstate₁, hreward₁]
      simp [rollPeriods, firstStreakReward]
    simp [hs, firstStreakReward]
  · have hk : settled₁.streakPeriodKept = false := by
      rw [hstate₁]
      exact rollPeriods_kept _ _ (Nat.pos_of_ne_zero hz)
    have hn : n ≠ 0 := by omega
    rw [firstStreakReward_of_unkept hk, firstStreakReward, firstStreakReward, if_neg hz,
      if_neg hn]
    change _ ↔ n₁ = 0 ∨ loyaltyReward _ _ _ = loyaltyReward _ _ _
    generalize loyaltyReward config account.principal
      (loyaltyMultiplierBps (now₁ - account.createdAt) config) = early
    generalize loyaltyReward config account.principal
      (loyaltyMultiplierBps (now₂ - account.createdAt) config) = late
    have hps : (n₁ : Int) ≠ 0 := by exact_mod_cast hz
    constructor
    · intro h
      refine .inr (mul_left_cancel₀ hps ?_)
      linarith
    · rintro (h | h)
      · exact absurd h hz
      · rw [h]
        ring

end

/-- Accruing early leaves the same reward state exactly when no period had elapsed by then, or the
account had reached no new loyalty tier that changes the reward of a period since. -/
theorem accrue_early_iff {W : Type} (early late : Ctx) (owner : Address) (s s₁ m₁ t₁ m t : Sys W)
    (accrued₁ accrued₂ accrued : Int) (hle : early.now ≤ late.now) (hnow : late.now ≤ u64Max)
    (hearly : rewardsAccrue early owner s = .ok (accrued₁, s₁))
    (hquiet₁ : s₁.store.SameRewards owner m₁.store)
    (hlate : rewardsAccrue late owner m₁ = .ok (accrued₂, t₁))
    (hquiet : s.store.SameRewards owner m.store)
    (honce : rewardsAccrue late owner m = .ok (accrued, t)) :
    t₁.store.rewardStates.get owner = t.store.rewardStates.get owner ↔
      ∀ account, s.store.interestAccounts.get owner = some account →
        (s.store.rewardStateOf owner account).periodsAt s.store.rewardsConfig early.now = 0 ∨
          loyaltyAt s.store.rewardsConfig account early.now =
            loyaltyAt s.store.rewardsConfig account late.now := by
  cases ha : s.store.interestAccounts.get owner with
  | none =>
    -- without an account nothing is written in either run
    have hs₁ := (rewardsAccrue_unopened hearly ha).2
    have ht := (rewardsAccrue_unopened honce (hquiet.account.trans ha)).2
    have hnone₁ : m₁.store.interestAccounts.get owner = none := by
      rw [hquiet₁.account, hs₁, ha]
    have ht₁ := (rewardsAccrue_unopened hlate hnone₁).2
    simp [ht₁, ht, hquiet₁.state, hquiet.state, hs₁]
  | some account =>
    obtain ⟨settled₁, hf, hs₁⟩ := rewardsAccrue_opened hearly ha
    have hsome₁ : m₁.store.interestAccounts.get owner = some account := by
      rw [hquiet₁.account, hs₁]
      exact ha
    obtain ⟨settled₂, hsc, ht₁⟩ := rewardsAccrue_opened hlate hsome₁
    obtain ⟨settled, honce, ht⟩ := rewardsAccrue_opened honce (hquiet.account.trans ha)
    have hstate₁ : m₁.store.rewardStateOf owner account = settled₁ := by
      rw [Store.rewardStateOf, hquiet₁.state, hs₁]
      simp [Store.setRewardState]
    have hs : m.store.rewardStateOf owner account = s.store.rewardStateOf owner account := by
      rw [Store.rewardStateOf, hquiet.state]
      rfl
    have hconfig₁ : m₁.store.rewardsConfig = s.store.rewardsConfig := by
      rw [hquiet₁.config, hs₁]
      rfl
    rw [hstate₁, hconfig₁] at hsc
    rw [hs, hquiet.config] at honce
    rw [ht₁, ht]
    simp only [Store.setRewardState, SortedMap.get_set_self, some.injEq, forall_eq']
    exact accrue_twice hle hnow hf hsc honce

/-- Saver 2 opens an account with a hundred thousand units, under the default configuration. -/
def openedRun : List Move :=
  [.call ⟨0, 0, []⟩ (.setup 1 9), .call ⟨0, 0, [2]⟩ (.interestDeposit 2 100000)]

def opened : Sys World := runFrom (step 0) (.deployed purse) openedRun

theorem accrue_early_day :
    let s₁ := (rewardsAccrue ⟨86400, 0, []⟩ 2).after opened
    let t₁ := (rewardsAccrue ⟨3024000, 0, []⟩ 2).after s₁
    let t := (rewardsAccrue ⟨3024000, 0, []⟩ 2).after opened
    (t₁.store.rewardStates.get 2).map (·.pending) = some 27500 ∧
      (t₁.store.rewardStates.get 2 = t.store.rewardStates.get 2 ↔
        ∀ account, opened.store.interestAccounts.get 2 = some account →
          (opened.store.rewardStateOf 2 account).periodsAt opened.store.rewardsConfig 86400 = 0 ∨
            loyaltyAt opened.store.rewardsConfig account 86400 =
              loyaltyAt opened.store.rewardsConfig account 3024000) := by
  obtain ⟨_, he⟩ := Call.ok_of_succeeds (x := rewardsAccrue ⟨86400, 0, []⟩ 2) (s := opened)
    (by decide +kernel)
  obtain ⟨_, hl⟩ := Call.ok_of_succeeds (x := rewardsAccrue ⟨3024000, 0, []⟩ 2)
    (s := (rewardsAccrue ⟨86400, 0, []⟩ 2).after opened) (by decide +kernel)
  obtain ⟨_, honce⟩ := Call.ok_of_succeeds (x := rewardsAccrue ⟨3024000, 0, []⟩ 2) (s := opened)
    (by decide +kernel)
  exact ⟨by decide +kernel, accrue_early_iff ⟨86400, 0, []⟩ ⟨3024000, 0, []⟩ 2 opened _ _ _ _ _
    _ _ _ (by decide) (by decide) he ⟨rfl, rfl, rfl⟩ hl ⟨rfl, rfl, rfl⟩ honce⟩

/-- A stranger who accrues after a week fixes the first week at the lowest multiplier, and the
owner is left with less than a single accrual after five weeks would give. -/
theorem accrue_early_loses :
    let s₁ := (rewardsAccrue ⟨604800, 0, []⟩ 2).after opened
    let t₁ := (rewardsAccrue ⟨3024000, 0, []⟩ 2).after s₁
    let t := (rewardsAccrue ⟨3024000, 0, []⟩ 2).after opened
    (t₁.store.rewardStates.get 2).map (·.pending) = some 27000 ∧
      (t.store.rewardStates.get 2).map (·.pending) = some 27500 := by
  decide +kernel

/-! ### Loyalty by age -/

section

variable {capBps : Nat} {tiers : List LoyaltyTier} {best prevSeconds : Nat}

/-- Each tier's multiplier is at least the one before it, and the first is at least `best`. -/
def Rising (best : Nat) (tiers : List LoyaltyTier) : Prop :=
  (best :: tiers.map (·.multiplierBps)).IsChain (· ≤ ·)

theorem rising_cons {tier : LoyaltyTier} :
    Rising best (tier :: tiers) ↔ best ≤ tier.multiplierBps ∧ Rising tier.multiplierBps tiers :=
  List.isChain_cons_cons

theorem tiersValid_cons {tier : LoyaltyTier} :
    tiersValid capBps (tier :: tiers) prevSeconds = true ↔ prevSeconds < tier.minSeconds ∧
      tier.multiplierBps ≤ capBps ∧ tiersValid capBps tiers tier.minSeconds = true := by
  simp [tiersValid, and_assoc]

theorem tierFor_le_cap (hv : tiersValid capBps tiers prevSeconds = true)
    (hb : best ≤ capBps) (age : Nat) : tierFor age tiers best ≤ capBps := by
  induction tiers generalizing best prevSeconds with
  | nil => exact hb
  | cons tier rest ih =>
    obtain ⟨-, hle, hr⟩ := tiersValid_cons.mp hv
    unfold tierFor
    split_ifs
    · exact ih hr hle
    · exact hb

/-- Before the first tier the multiplier is the one the scan starts with. -/
theorem tierFor_before (hv : tiersValid capBps tiers prevSeconds = true) :
    tierFor prevSeconds tiers best = best := by
  cases tiers with
  | nil => rfl
  | cons tier rest => exact if_neg (Nat.not_le.mpr (tiersValid_cons.mp hv).1)

theorem Rising.le_tierFor (h : Rising best tiers) (age : Nat) : best ≤ tierFor age tiers best := by
  induction tiers generalizing best with
  | nil => exact le_refl best
  | cons tier rest ih =>
    obtain ⟨hle, hr⟩ := rising_cons.mp h
    unfold tierFor
    split_ifs
    · exact hle.trans (ih hr)
    · exact le_refl best

theorem Rising.tierFor_mono (h : Rising best tiers) :
    Monotone (fun age => tierFor age tiers best) := by
  intro age later ha
  induction tiers generalizing best with
  | nil => exact le_refl best
  | cons tier rest ih =>
    obtain ⟨hle, hrs⟩ := rising_cons.mp h
    by_cases hr : tier.minSeconds ≤ age
    · simp only [tierFor, if_pos hr, if_pos (hr.trans ha)]
      exact ih hrs
    · simp only [tierFor, if_neg hr]
      split_ifs
      · exact hle.trans (hrs.le_tierFor later)
      · exact le_refl best

/-- Every tier is in force at some age, so a scan that never falls has rising tiers. -/
theorem rising_of_mono (hv : tiersValid capBps tiers prevSeconds = true)
    (h : ∀ age later, prevSeconds ≤ age → age ≤ later →
      tierFor age tiers best ≤ tierFor later tiers best) : Rising best tiers := by
  induction tiers generalizing best prevSeconds with
  | nil => exact List.isChain_singleton best
  | cons tier rest ih =>
    obtain ⟨hlt, -, hrs⟩ := tiersValid_cons.mp hv
    have hr : ∀ age, tier.minSeconds ≤ age →
        tierFor age (tier :: rest) best = tierFor age rest tier.multiplierBps :=
      fun age ha => if_pos ha
    have hf := h prevSeconds tier.minSeconds (le_refl _) hlt.le
    rw [tierFor_before hv, hr _ (le_refl _), tierFor_before hrs] at hf
    refine rising_cons.mpr ⟨hf, ih hrs ?_⟩
    intro age later ha hle
    rw [← hr age ha, ← hr later (ha.trans hle)]
    exact h age later (hlt.le.trans ha) hle

end

/-- The multiplier stays between one and the cap and never falls with age exactly when the tiers
start at one or more and rise, which the validation does not ask for. -/
theorem loyalty_bounded_iff_rising (config : RewardsConfig)
    (hvalid : validateConfig config = true) :
    ((∀ age, 10000 ≤ loyaltyMultiplierBps age config ∧
        loyaltyMultiplierBps age config ≤ config.loyaltyCapBps) ∧
      ∀ age later, age ≤ later →
        loyaltyMultiplierBps age config ≤ loyaltyMultiplierBps later config) ↔
      Rising 10000 config.loyaltyTiers := by
  simp only [validateConfig, Bool.and_eq_true, decide_eq_true_eq] at hvalid
  obtain ⟨⟨⟨-, hc⟩, -⟩, ht⟩ := hvalid
  have hs : ∀ age, loyaltyMultiplierBps age config = tierFor age config.loyaltyTiers 10000 :=
    fun age => min_eq_left (tierFor_le_cap ht hc age)
  simp only [hs]
  constructor
  · rintro ⟨-, hm⟩
    exact rising_of_mono ht (fun age later _ hle => hm age later hle)
  · intro hr
    exact ⟨fun age => ⟨hr.le_tierFor age, tierFor_le_cap ht hc age⟩,
      fun age later hle => hr.tierFor_mono hle⟩

theorem defaultTiers_bounded :
    validateConfig defaultConfig = true ∧ Rising 10000 defaultConfig.loyaltyTiers ∧
      ∀ age, 10000 ≤ loyaltyMultiplierBps age defaultConfig ∧
        loyaltyMultiplierBps age defaultConfig ≤ defaultConfig.loyaltyCapBps := by
  have hv : validateConfig defaultConfig = true := by decide
  have hr : Rising 10000 defaultConfig.loyaltyTiers := by simp [Rising, defaultConfig]
  exact ⟨hv, hr, ((loyalty_bounded_iff_rising defaultConfig hv).mpr hr).1⟩

/-- Double after ten seconds, less than one after twenty. -/
def fallingTiers : RewardsConfig where
  baseRateBps := 500
  accrualPeriodSeconds := 604800
  loyaltyTiers := [⟨10, 20000⟩, ⟨20, 9000⟩]
  loyaltyCapBps := 20000
  streakBonusBpsPerPeriod := 100
  streakBonusCapBps := 500
  streakPeriodSeconds := 604800

/-- An accepted configuration whose multiplier falls with age, below one. -/
theorem loyalty_falls :
    validateConfig fallingTiers = true ∧ loyaltyMultiplierBps 10 fallingTiers = 20000 ∧
      loyaltyMultiplierBps 20 fallingTiers = 9000 := by decide

end Stow.Vault
