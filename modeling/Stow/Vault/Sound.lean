import Stow.Vault.Step

/-! What holds of the vault's records in every run. -/
namespace Stow.Vault

open Stow.Lib Stow.Lib.Contract

/-- No pool is negative, no group is empty, and before initialization nothing was paid. The last
two parts are about runs in which initialization does not rewind the counters. -/
structure Store.Sound (freshGoals freshGroups : Prop) (st : Store) : Prop where
  unset : st.admin = none → st.token = none ∧ st.insuranceFundBalance = 0 ∧ st.nextLockedId = 0
  lockedIds : st.locked.Forall (fun id _ => id ≤ st.nextLockedId)
  goals : st.goals.Forall (fun _ goal => 0 ≤ goal.savedAmount)
  groups : st.groups.Forall (fun _ group => 0 ≤ group.balance ∧ group.members ≠ [])
  interest : st.interestAccounts.Forall (fun _ account => 0 ≤ account.principal)
  pool : 0 ≤ st.rewardPoolBalance
  penalty : st.earlyWithdrawPenaltyBps ≤ 10000
  goalIds : freshGoals → st.goals.Forall (fun id _ => id ≤ st.nextGoalId)
  groupIds : freshGroups → st.groups.Forall (fun id _ => id ≤ st.nextGroupId)

/-- Initialization comes before the first goal. -/
def Op.KeepsGoalIds (op : Op) (st : Store) : Prop :=
  op.isSetup = true → st.admin = none → st.nextGoalId = 0

/-- Initialization comes before the first group. -/
def Op.KeepsGroupIds (op : Op) (st : Store) : Prop :=
  op.isSetup = true → st.admin = none → st.nextGroupId = 0

instance (op : Op) (st : Store) : Decidable (op.KeepsGoalIds st) :=
  inferInstanceAs (Decidable (_ → _))

instance (op : Op) (st : Store) : Decidable (op.KeepsGroupIds st) :=
  inferInstanceAs (Decidable (_ → _))

variable {freshGoals freshGroups : Prop}

theorem deployed_sound : Store.deployed.Sound freshGoals freshGroups where
  unset _ := ⟨rfl, rfl, rfl⟩
  lockedIds := .empty
  goals := .empty
  groups := .empty
  interest := .empty
  pool := le_refl _
  penalty := Nat.zero_le _
  goalIds _ := .empty
  groupIds _ := .empty

section

variable {st : Store}

/-- A configured token means that the admin is set. -/
theorem Store.Sound.admin_ne (hs : st.Sound freshGoals freshGroups) (h : st.token ≠ none) :
    st.admin ≠ none :=
  fun ha => h (hs.unset ha).1

theorem Store.Sound.config {a b : Store} (hs : a.Sound freshGoals freshGroups)
    (h : a.SameRecords b) : b.Sound freshGoals freshGroups where
  unset ha := by
    rw [h.token, h.insuranceFundBalance, h.nextLockedId]
    exact hs.unset (h.admin.mp ha)
  lockedIds := by
    rw [h.locked, h.nextLockedId]
    exact hs.lockedIds
  goals := h.goals ▸ hs.goals
  groups := h.groups ▸ hs.groups
  interest := h.interestAccounts ▸ hs.interest
  pool := h.rewardPoolBalance ▸ hs.pool
  penalty := h.penalty hs.penalty
  goalIds hf := by
    rw [h.goals, h.nextGoalId]
    exact hs.goalIds hf
  groupIds hf := by
    rw [h.groups, h.nextGroupId]
    exact hs.groupIds hf

section

variable (hs : st.Sound freshGoals freshGroups)

include hs

theorem Store.Sound.seeded (ha : st.admin = none) (hg : freshGoals → st.nextGoalId = 0)
    (hgr : freshGroups → st.nextGroupId = 0) (admin token : Address) :
    (st.seeded admin token).Sound freshGoals freshGroups :=
  { hs with
    unset := fun h => by simp [Store.seeded] at h
    lockedIds := by
      have hi := hs.lockedIds
      rwa [(hs.unset ha).2.2] at hi
    goalIds := fun hf => by
      have hi := hs.goalIds hf
      rwa [hg hf] at hi
    groupIds := fun hf => by
      have hi := hs.groupIds hf
      rwa [hgr hf] at hi }

theorem Store.Sound.interestOf_nonneg (owner : Address) (now : Nat) :
    0 ≤ (st.interestOf owner now).principal := by
  unfold Store.interestOf
  cases ha : st.interestAccounts.get owner with
  | none => exact le_refl _
  | some account => exact hs.interest owner account ha

theorem Store.Sound.setLocked {id : Nat} {plan : LockedPlan} (hg : st.locked.get id = some plan)
    (plan' : LockedPlan) : (st.setLocked id plan').Sound freshGoals freshGroups :=
  { hs with lockedIds := hs.lockedIds.set (hs.lockedIds id plan hg) }

theorem Store.Sound.setGroup {id : Nat} {group group' : Group}
    (hg : st.groups.get id = some group) (h : 0 ≤ group'.balance ∧ group'.members ≠ []) :
    (st.setGroup id group').Sound freshGoals freshGroups :=
  { hs with
    groups := hs.groups.set h
    groupIds := fun hf => (hs.groupIds hf).set (hs.groupIds hf id group hg) }

theorem Store.Sound.setInterest {owner : Address} {account : InterestAccount}
    (h : 0 ≤ account.principal) (states : SortedMap Address RewardState) :
    ((st.setInterest owner account).setRewardStates states).Sound freshGoals freshGroups :=
  { hs with interest := hs.interest.set h }

end

/-- Entries under ids up to a counter, and a new one under the next. -/
theorem ids_succ {V : Type} {m : SortedMap Nat V} {next : Nat} {v : V}
    (h : m.Forall (fun id _ => id ≤ next)) :
    (m.set (next + 1) v).Forall (fun id _ => id ≤ next + 1) :=
  (h.mono (fun _ _ hid => Nat.le_succ_of_le hid)).set (le_refl _)

/-- The next id is free. -/
theorem get_succ_eq_none {V : Type} {m : SortedMap Nat V} {next : Nat}
    (h : m.Forall (fun id _ => id ≤ next)) : m.get (next + 1) = none :=
  h.get_eq_none (fun _ => Nat.not_succ_le_self next)

end

variable {ctx : Ctx} {self : Address} {s t : Sys World} {u : Unit}

/-- Every successful call keeps the records sound. -/
theorem exec_sound {op : Op} (hs : s.store.Sound freshGoals freshGroups)
    (hg : freshGoals → op.KeepsGoalIds s.store)
    (hgr : freshGroups → op.KeepsGroupIds s.store)
    (h : op.exec (exact self) ctx s = .ok (u, t)) : t.store.Sound freshGoals freshGroups := by
  cases op with
  | setup admin token =>
    obtain ⟨ha, hsr, -⟩ := initializeVault_ok h
    exact hsr ▸ hs.seeded ha (fun hfr => hg hfr rfl ha)
      (fun hfr => hgr hfr rfl ha) admin token
  | config op => exact hs.config (ConfigOp.exec_ok h).1
  | deposit source amount =>
    obtain ⟨-, -, ht, _, _, -, -, -, -, hsr⟩ := deposit_ok h
    exact hsr ▸ { hs with unset := fun ha => absurd ha (hs.admin_ne ht) }
  | withdraw owner amount =>
    obtain ⟨-, -, _, -, -, -, -, hsr⟩ := withdraw_ok h
    exact hsr ▸ { hs with }
  | delegatedDeposit delegate owner amount =>
    obtain ⟨-, -, _, -, -, -, -, hsr⟩ := delegatedDeposit_ok h
    exact hsr ▸ { hs with }
  | delegatedWithdraw delegate owner amount =>
    obtain ⟨-, _, _, -, -, -, -, -, hsr⟩ := delegatedWithdraw_ok h
    exact hsr ▸ { hs with }
  | lockedCreate owner amount unlockAt =>
    obtain ⟨_, h⟩ := of_void h
    obtain ⟨-, -, -, ht, rfl, -, -, hsr⟩ := lockedCreate_ok h
    exact hsr ▸ { hs with
      unset := fun ha => absurd ha (hs.admin_ne ht)
      lockedIds := ids_succ hs.lockedIds }
  | lockedTopUp owner planId amount =>
    obtain ⟨-, -, plan, hgt, -, -, hsr⟩ := lockedTopUp_ok h
    exact hsr ▸ hs.setLocked hgt _
  | lockedWithdraw owner planId amount =>
    obtain ⟨-, -, plan, hgt, -, -, -, -, hsr⟩ := lockedWithdraw_ok h
    exact hsr ▸ hs.setLocked hgt _
  | lockedEarlyWithdraw owner planId amount =>
    obtain ⟨-, -, plan, _, _, _, hgt, -, -, -, -, -, -, -, -, hsr⟩ := lockedEarlyWithdraw_ok h
    exact hsr ▸ hs.setLocked hgt _
  | lockedEmergencyWithdraw owner planId =>
    obtain ⟨-, -, plan, hgt, -, -, -, hsr⟩ := lockedEmergencyWithdraw_ok h
    exact hsr ▸ hs.setLocked hgt _
  | goalCreate owner name targetAmount =>
    obtain ⟨_, h⟩ := of_void h
    obtain ⟨-, rfl, hsr, -⟩ := goalCreate_ok h
    exact hsr ▸ { hs with
      goals := hs.goals.set (le_refl _)
      goalIds := fun hfr => ids_succ (hs.goalIds hfr) }
  | goalContribute source goalId amount =>
    obtain ⟨-, hps, goal, _, hgt, -, -, -, -, hsr⟩ := goalContribute_ok h
    have hsv := hs.goals goalId goal hgt
    exact hsr ▸ { hs with
      goals := hs.goals.set (by simp only; omega)
      goalIds := fun hfr => (hs.goalIds hfr).set (hs.goalIds hfr _ _ hgt) }
  | goalClaim owner goalId =>
    obtain ⟨goal, _, hgt, -, -, -, -, hsr⟩ := goalClaim_ok h
    have hf : ∀ P : Nat → Goal → Prop, s.store.goals.Forall P →
        (∀ goal, 0 ≤ goal.savedAmount → P goalId goal) →
        (s.store.finishedGoals goal goalId).Forall P := by
      intro P hal hn
      unfold Store.finishedGoals
      split_ifs
      · exact hal.set (hn _ (le_refl _))
      · exact hal.remove
    exact hsr ▸ { hs with
      goals := hf _ hs.goals (fun _ hsv => hsv)
      goalIds := fun hfr => hf _ (hs.goalIds hfr)
        (fun _ _ => hs.goalIds hfr _ _ hgt) }
  | goalSetAutoRenew owner goalId autoRenew =>
    obtain ⟨goal, hgt, -, hsr, -⟩ := goalSetAutoRenew_ok h
    exact hsr ▸ { hs with
      goals := hs.goals.set (hs.goals goalId goal hgt)
      goalIds := fun hfr => (hs.goalIds hfr).set (hs.goalIds hfr _ _ hgt) }
  | groupCreate creator name =>
    obtain ⟨_, h⟩ := of_void h
    obtain ⟨rfl, hsr, -⟩ := groupCreate_ok h
    exact hsr ▸ { hs with
      groups := hs.groups.set ⟨le_refl _, List.cons_ne_nil _ _⟩
      groupIds := fun hfr => ids_succ (hs.groupIds hfr) }
  | groupJoin | groupContribute | groupClose | groupPayoutEqual | groupSetShares | groupSettle
  | groupSetVotingPeriod | groupExecute =>
    obtain ⟨id, group, group', _, hgt, hsr, he, hb⟩ := exec_regroups rfl h
    have hgr := hs.groups id group hgt
    have hse := hs.setGroup hgt ⟨(hb hgr).1, he.members_ne hgr.2⟩
    exact hsr ▸ { hse with }
  | groupPropose proposer groupId recipient amount =>
    obtain ⟨_, h⟩ := of_void h
    obtain ⟨-, rfl, _, -, -, -, -, -, hsr, -⟩ := groupPropose_ok h
    exact hsr ▸ { hs with }
  | groupVote voter proposalId approve =>
    obtain ⟨_, _, -, -, -, -, -, -, -, hsr, -⟩ := groupVote_ok h
    exact hsr ▸ { hs with }
  | interestDeposit owner amount =>
    obtain ⟨-, hps, settled, _, _, hst, -, -, hsr⟩ := interestDeposit_ok h
    obtain ⟨-, hp⟩ := settle_nonneg (hs.interestOf_nonneg owner ctx.now) hst
    exact hsr ▸ hs.setInterest (by simp only [InterestAccount.adopt]; omega) _
  | interestWithdraw owner amount =>
    obtain ⟨-, _, settled, _, _, -, -, hle, -, -, hsr⟩ := interestWithdraw_ok h
    exact hsr ▸ hs.setInterest (by simp only [InterestAccount.adopt]; omega) _
  | interestClaim owner =>
    obtain ⟨_, h⟩ := of_void h
    obtain ⟨account, settled, hgt, hst, -, hsr⟩ := interestClaim_ok h
    obtain ⟨-, hp⟩ := settle_nonneg (hs.interest owner account hgt) hst
    exact hsr ▸ { hs with interest := hs.interest.set hp }
  | insuranceFund caller amount =>
    obtain ⟨-, ht, -, hsr⟩ := insuranceFund_ok h
    exact hsr ▸ { hs with unset := fun ha => absurd ha (hs.admin_ne ht) }
  | insuranceRedeemClaim claimant =>
    obtain ⟨_, h⟩ := of_void h
    obtain ⟨-, ht, _, -, -, -, -, -, -, hsr⟩ := insuranceRedeemClaim_ok h
    exact hsr ▸ { hs with unset := fun ha => absurd ha (hs.admin_ne ht) }
  | rewardsFundPool caller amount =>
    obtain ⟨-, hps, -, hsr⟩ := rewardsFundPool_ok h
    exact hsr ▸ { hs with pool := add_nonneg hs.pool hps.le }
  | rewardsClaim owner =>
    obtain ⟨_, h⟩ := of_void h
    obtain ⟨_, ⟨hsr, -⟩ | ⟨-, hle, -, hsr⟩⟩ := rewardsClaim_ok h
    · exact hsr ▸ { hs with }
    · exact hsr ▸ { hs with pool := sub_nonneg.mpr hle }

/-- The part that needs nothing of the run. -/
theorem sound_step (s : Sys World) (e : Move) (hs : s.store.Sound False False) :
    (step self s e).store.Sound False False :=
  step_induction (P := fun _ _ => True)
    (fun _ _ _ _ _ hs _ h => exec_sound hs False.elim False.elim h) (fun _ _ _ _ hs => hs) s e hs
    trivial

end Stow.Vault
