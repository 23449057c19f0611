import Stow.Vault.Sound

/-! What the vault records as owed or set aside, against what it holds. -/
namespace Stow.Vault

open Stow.Lib Stow.Lib.Contract SortedMap

/-- All balances the vault records. -/
def Store.recorded (st : Store) : Int :=
  st.flexible.sum (·.balance) + st.locked.sum (·.balance) + st.goals.sum (·.savedAmount) +
    st.groups.sum (·.balance) + st.interestAccounts.sum (·.principal) +
    st.insuranceFundBalance + st.rewardPoolBalance

/-- The interest that settling an account now would credit. -/
def InterestAccount.due (account : InterestAccount) (now : Nat) : Int :=
  (settle account now).elim 0 (·.2)

/-- The owner of the interest account that a call settles. -/
def Op.settled : Op → Option Address
  | .interestDeposit owner _ => some owner
  | .interestWithdraw owner _ => some owner
  | .interestClaim owner => some owner
  | _ => none

/-- The interest that a call credits. -/
def Op.credited (op : Op) (ctx : Ctx) (st : Store) : Int :=
  op.settled.elim 0 (fun owner => (st.interestOf owner ctx.now).due ctx.now)

/-- The balance of a record that a new one replaces. -/
def Op.dropped (op : Op) (st : Store) : Int :=
  match op with
  | .goalCreate _ _ _ => (st.goals.get (st.nextGoalId + 1)).elim 0 (·.savedAmount)
  | .groupCreate _ _ => (st.groups.get (st.nextGroupId + 1)).elim 0 (·.balance)
  | _ => 0

theorem flexibleOf_balance (st : Store) (owner : Address) (now : Nat) :
    (st.flexibleOf owner now).balance = (st.flexible.get owner).elim 0 (·.balance) := by
  unfold Store.flexibleOf
  cases st.flexible.get owner <;> rfl

theorem interestOf_principal (st : Store) (owner : Address) (now : Nat) :
    (st.interestOf owner now).principal = (st.interestAccounts.get owner).elim 0 (·.principal) := by
  unfold Store.interestOf
  cases st.interestAccounts.get owner <;> rfl

theorem due_of_settle {account settled : InterestAccount} {now : Nat} {credited : Int}
    (h : settle account now = some (settled, credited)) : account.due now = credited := by
  simp [InterestAccount.due, h]

/-! ### Writing one record -/

section

variable {st : Store}

theorem recorded_setFlexible (owner : Address) (account : FlexibleAccount) :
    (st.setFlexible owner account).recorded =
      st.recorded - (st.flexible.get owner).elim 0 (·.balance) + account.balance := by
  simp only [Store.recorded, Store.setFlexible, sum_set]
  ring

theorem recorded_setLocked (id : Nat) (plan : LockedPlan) :
    (st.setLocked id plan).recorded =
      st.recorded - (st.locked.get id).elim 0 (·.balance) + plan.balance := by
  simp only [Store.recorded, Store.setLocked, sum_set]
  ring

theorem recorded_setInterest (owner : Address) (account : InterestAccount)
    (states : SortedMap Address RewardState) :
    ((st.setInterest owner account).setRewardStates states).recorded =
      st.recorded - (st.interestAccounts.get owner).elim 0 (·.principal) + account.principal := by
  simp only [Store.recorded, Store.setInterest, Store.setRewardStates, sum_set]
  ring

theorem finishedGoals_sum {goal : Goal} {goalId : Nat} (h : st.goals.get goalId = some goal) :
    (st.finishedGoals goal goalId).sum (·.savedAmount) =
      st.goals.sum (·.savedAmount) - goal.savedAmount := by
  unfold Store.finishedGoals
  split_ifs
  · rw [sum_set, h]
    exact add_zero _
  · rw [sum_remove, h]
    rfl

theorem recorded_config {a b : Store} (h : a.SameRecords b) : b.recorded = a.recorded := by
  simp only [Store.recorded, h.flexible, h.locked, h.goals, h.groups, h.interestAccounts,
    h.insuranceFundBalance, h.rewardPoolBalance]

end

/-! ### One call -/

/-- The tokens a call moved are the change of the recorded balances, but for credited interest
and for a record that was replaced. -/
def Balanced (self : Address) (op : Op) (ctx : Ctx) (s t : Sys World) : Prop :=
  ∃ change, World.Moved self change s.world t.world ∧
    t.store.recorded =
      s.store.recorded + change + op.credited ctx s.store - op.dropped s.store

variable {freshGoals freshGroups : Prop} {ctx : Ctx} {self : Address} {s t : Sys World} {u : Unit}
  {op : Op} {owner : Address} {id : Nat} {change : Int}

section

variable (hs : op.settled = none) (hd : op.dropped s.store = 0)

include hs hd

/-- A call that credits no interest and replaces no record. -/
theorem Balanced.plain (hm : World.Moved self change s.world t.world)
    (h : t.store.recorded = s.store.recorded + change) : Balanced self op ctx s t := by
  refine ⟨change, hm, ?_⟩
  simp [h, hd, Op.credited, hs]

/-- One record changes by what was moved. -/
theorem Balanced.flexible {account : FlexibleAccount}
    (hm : World.Moved self change s.world t.world)
    (hst : t.store = s.store.setFlexible owner account)
    (hb : account.balance = (s.store.flexible.get owner).elim 0 (·.balance) + change) :
    Balanced self op ctx s t := by
  refine .plain hs hd hm ?_
  rw [hst, recorded_setFlexible, hb]
  ring

theorem Balanced.locked {plan plan' : LockedPlan} (hm : World.Moved self change s.world t.world)
    (hg : s.store.locked.get id = some plan) (hst : t.store = s.store.setLocked id plan')
    (hb : plan'.balance = plan.balance + change) : Balanced self op ctx s t := by
  refine .plain hs hd hm ?_
  rw [hst, recorded_setLocked, hg, hb]
  simp only [Option.elim]
  ring

end

/-- An account is settled, and its principal changes by what was moved. -/
theorem Balanced.settle {settled : InterestAccount} {credited principal : Int}
    {states : SortedMap Address RewardState} (ho : op.settled = some owner)
    (hd : op.dropped s.store = 0) (hm : World.Moved self change s.world t.world)
    (hs : Vault.settle (s.store.interestOf owner ctx.now) ctx.now = some (settled, credited))
    (hst : t.store = (s.store.setInterest owner
      (settled.adopt s.store principal ctx.now)).setRewardStates states)
    (hp : principal = settled.principal + change) : Balanced self op ctx s t := by
  refine ⟨change, hm, ?_⟩
  rw [hst, recorded_setInterest, ← interestOf_principal s.store owner ctx.now]
  simp only [InterestAccount.adopt, hp, settle_principal hs, Op.credited, ho, hd, Option.elim,
    due_of_settle hs]
  ring

/-- Every successful call is balanced. -/
theorem exec_balanced (hs : s.store.Sound freshGoals freshGroups)
    (h : op.exec (exact self) ctx s = .ok (u, t)) : Balanced self op ctx s t := by
  cases op with
  | setup admin token =>
    obtain ⟨ha, hst, hw⟩ := initializeVault_ok h
    refine .plain rfl rfl (.still hw) ?_
    obtain ⟨-, hf, -⟩ := hs.unset ha
    simp only [hst, Store.recorded, Store.seeded, hf, add_zero]
  | config op =>
    obtain ⟨hsm, hw⟩ := ConfigOp.exec_ok h
    exact .plain rfl rfl (.still hw) (by rw [recorded_config hsm, add_zero])
  | deposit source amount =>
    obtain ⟨hne, -, -, account, premium, ha, -, hw, -, hst⟩ := deposit_ok h
    refine .plain rfl rfl (World.pay_in hne hw) ?_
    have hb := flexibleOf_balance s.store source ctx.now
    rw [← ha] at hb
    simp only [hst, Store.recorded, sum_set, ← hb]
    ring
  | withdraw owner amount =>
    obtain ⟨-, -, account, hg, -, hw, -, hst⟩ := withdraw_ok h
    exact .flexible rfl rfl (World.pay_out hw) hst (by rw [hg]; rfl)
  | delegatedDeposit delegate owner amount =>
    obtain ⟨hne, -, account, ha, -, hw, -, hst⟩ := delegatedDeposit_ok h
    refine .flexible rfl rfl (World.pay_in hne hw) hst ?_
    rw [← flexibleOf_balance s.store owner ctx.now, ← ha]
  | delegatedWithdraw delegate owner amount =>
    obtain ⟨-, _, account, -, hg, -, hw, -, hst⟩ := delegatedWithdraw_ok h
    exact .flexible rfl rfl (World.pay_out hw) hst (by rw [hg]; rfl)
  | lockedCreate owner amount unlockAt =>
    obtain ⟨_, h⟩ := of_void h
    obtain ⟨hne, -, -, -, rfl, hw, -, hst⟩ := lockedCreate_ok h
    refine .plain rfl rfl (World.pay_in hne hw) ?_
    simp only [hst, Store.recorded, sum_set, get_succ_eq_none hs.lockedIds, Option.elim]
    ring
  | lockedTopUp owner planId amount =>
    obtain ⟨hne, -, plan, hg, -, hw, hst⟩ := lockedTopUp_ok h
    exact .locked rfl rfl (World.pay_in hne hw) hg hst rfl
  | lockedWithdraw owner planId amount =>
    obtain ⟨-, -, plan, hg, -, -, -, hw, hst⟩ := lockedWithdraw_ok h
    exact .locked rfl rfl (World.pay_out hw) hg hst rfl
  | lockedEarlyWithdraw owner planId amount =>
    -- the penalty and the rest are the whole decrease of the plan
    obtain ⟨-, hps, plan, penalty, recipient, w, hg, -, -, -, -, hp, hw, -, hw', hst⟩ :=
      lockedEarlyWithdraw_ok h
    have hnn : 0 ≤ penalty := hp ▸ bpsPart_nonneg hps.le
    have hle : penalty ≤ amount := hp ▸ bpsPart_le hps.le hs.penalty
    refine .locked rfl rfl ((World.payPositive_out (sub_nonneg.mpr hle) hw).trans
      (World.payPositive_out hnn hw')) hg hst ?_
    ring
  | lockedEmergencyWithdraw owner planId =>
    obtain ⟨-, -, plan, hg, -, -, hw, hst⟩ := lockedEmergencyWithdraw_ok h
    exact .locked rfl rfl (World.pay_out hw) hg hst (add_neg_cancel _).symm
  | goalCreate owner name targetAmount =>
    obtain ⟨_, h⟩ := of_void h
    obtain ⟨-, rfl, hst, hw, -⟩ := goalCreate_ok h
    refine ⟨0, .still hw, ?_⟩
    simp only [hst, Store.recorded, sum_set, Op.credited, Op.settled, Op.dropped, Option.elim]
    ring
  | goalContribute source goalId amount =>
    obtain ⟨hne, -, goal, _, hg, -, -, hw, -, hst⟩ := goalContribute_ok h
    refine .plain rfl rfl (World.pay_in hne hw) ?_
    simp only [hst, Store.recorded, sum_set, hg, Option.elim]
    ring
  | goalClaim owner goalId =>
    obtain ⟨goal, payouts, hg, -, -, hp, hpy, hst⟩ := goalClaim_ok h
    have hsm : (payouts.entries.map (·.2)).sum = goal.savedAmount := computePayouts_sum hp
    refine .plain rfl rfl (hsm ▸ World.payAll_out hpy) ?_
    simp only [hst, Store.recorded, finishedGoals_sum hg]
    ring
  | goalSetAutoRenew owner goalId autoRenew =>
    obtain ⟨goal, hg, -, hst, hw⟩ := goalSetAutoRenew_ok h
    refine .plain rfl rfl (.still hw) ?_
    simp only [hst, Store.recorded, Store.setGoal, sum_set, hg, Option.elim]
    ring
  | groupCreate creator name =>
    obtain ⟨_, h⟩ := of_void h
    obtain ⟨rfl, hst, hw⟩ := groupCreate_ok h
    refine ⟨0, .still hw, ?_⟩
    simp only [hst, Store.recorded, sum_set, Op.credited, Op.settled, Op.dropped,
      Group.fresh, Option.elim]
    ring
  | groupJoin | groupContribute | groupClose | groupPayoutEqual | groupSetShares | groupSettle
  | groupSetVotingPeriod | groupExecute =>
    obtain ⟨id, group, group', _, hg, hst, -, hb⟩ := exec_regroups rfl h
    obtain ⟨-, change, hm, hb⟩ := hb (hs.groups id group hg)
    refine .plain rfl rfl hm ?_
    simp only [hst, Store.recorded, Store.setGroup, sum_set, hg, hb, Option.elim]
    ring
  | groupPropose proposer groupId recipient amount =>
    obtain ⟨_, h⟩ := of_void h
    obtain ⟨-, rfl, _, -, -, -, -, -, hst, hw⟩ := groupPropose_ok h
    exact .plain rfl rfl (.still hw) (by rw [hst, add_zero]; rfl)
  | groupVote voter proposalId approve =>
    obtain ⟨_, _, -, -, -, -, -, -, -, hst, hw⟩ := groupVote_ok h
    exact .plain rfl rfl (.still hw) (by rw [hst, add_zero]; rfl)
  | interestDeposit owner amount =>
    obtain ⟨hne, -, settled, credited, states, hse, hw, -, hst⟩ := interestDeposit_ok h
    exact .settle rfl rfl (World.pay_in hne hw) hse hst rfl
  | interestWithdraw owner amount =>
    obtain ⟨-, account, settled, credited, states, hg, hse, -, hw, -, hst⟩ := interestWithdraw_ok h
    rw [← interestOf_some ctx.now hg] at hse
    exact .settle rfl rfl (World.pay_out hw) hse hst rfl
  | interestClaim owner =>
    obtain ⟨_, h⟩ := of_void h
    obtain ⟨account, settled, hg, hse, hw, hst⟩ := interestClaim_ok h
    rw [← interestOf_some ctx.now hg] at hse
    exact .settle rfl rfl (.still hw) hse hst (add_zero _).symm
  | insuranceFund caller amount =>
    obtain ⟨hne, -, hw, hst⟩ := insuranceFund_ok h
    refine .plain rfl rfl (World.pay_in hne hw) ?_
    simp only [hst, Store.recorded, Store.setInsuranceFund]
    ring
  | insuranceRedeemClaim claimant =>
    obtain ⟨_, h⟩ := of_void h
    obtain ⟨-, -, claim, -, -, -, -, -, hw, hst⟩ := insuranceRedeemClaim_ok h
    refine .plain rfl rfl (World.pay_out hw) ?_
    simp only [hst, Store.recorded]
    ring
  | rewardsFundPool caller amount =>
    obtain ⟨hne, -, hw, hst⟩ := rewardsFundPool_ok h
    refine .plain rfl rfl (World.pay_in hne hw) ?_
    simp only [hst, Store.recorded, Store.setRewardPool]
    ring
  | rewardsClaim owner =>
    obtain ⟨_, h⟩ := of_void h
    obtain ⟨states, ⟨hst, hw⟩ | ⟨-, -, hw, hst⟩⟩ := rewardsClaim_ok h
    · exact .plain rfl rfl (.still hw) (by rw [hst, add_zero]; rfl)
    · refine .plain rfl rfl (World.pay_out hw) ?_
      simp only [hst, Store.recorded, Store.setRewardStates, Store.setRewardPool]
      ring

end Stow.Vault
