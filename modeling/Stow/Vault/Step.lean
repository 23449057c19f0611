import Stow.Lib.Machine
import Stow.Vault.Flexible
import Stow.Vault.Locked
import Stow.Vault.Voting
import Stow.Vault.Interest

/-! Entrypoints as data, and runs of the vault over a token that moves exact amounts. -/
namespace Stow.Vault

open Stow.Lib Stow.Lib.Contract Call

/-- The entrypoints that move no tokens and write no balance. -/
inductive ConfigOp where
  | setAdmin (newAdmin : Address)
  | setPaused (caller : Address) (paused : Bool)
  | setDepositCap (cap : Int)
  | setMinDeposit (min : Int)
  | setEarlyWithdrawPenaltyBps (bps : Nat)
  | setPenaltyRecipient (recipient : Address)
  | setMinLockPeriod (seconds : Nat)
  | upgrade (caller : Address) (newWasmHash : Nat)
  | setEmergencyMode (caller : Address) (active : Bool)
  | setUpgradeDelay (caller : Address) (seconds : Nat)
  | proposeUpgrade (caller : Address) (newWasmHash : Nat)
  | executeUpgrade (caller : Address)
  | cancelUpgrade (caller : Address)
  | migrate (caller : Address)
  | setInterestRate (caller : Address) (rateBps : Nat)
  | setInterestFrequency (caller : Address) (frequency : CompoundFrequency)
  | setInsurancePremiumBps (caller : Address) (bps : Nat)
  | setInsuranceMaxClaimBps (caller : Address) (bps : Nat)
  | insuranceApproveClaim (caller claimant : Address) (amount : Int)
  | delegateSavings (owner delegate : Address) (level : PermissionLevel) (expiresAt : Option Nat)
  | updateDelegation (owner delegate : Address) (level : PermissionLevel) (expiresAt : Option Nat)
  | revokeDelegation (owner delegate : Address)
  | rewardsSetConfig (caller : Address) (config : RewardsConfig)
  | rewardsPing (owner : Address)
  | rewardsAccrue (owner : Address)

inductive Op where
  | setup (admin token : Address)
  | config (op : ConfigOp)
  | deposit (source : Address) (amount : Int)
  | withdraw (owner : Address) (amount : Int)
  | delegatedDeposit (delegate owner : Address) (amount : Int)
  | delegatedWithdraw (delegate owner : Address) (amount : Int)
  | lockedCreate (owner : Address) (amount : Int) (unlockAt : Nat)
  | lockedTopUp (owner : Address) (planId : Nat) (amount : Int)
  | lockedWithdraw (owner : Address) (planId : Nat) (amount : Int)
  | lockedEarlyWithdraw (owner : Address) (planId : Nat) (amount : Int)
  | lockedEmergencyWithdraw (owner : Address) (planId : Nat)
  | goalCreate (owner : Address) (name : String) (targetAmount : Int)
  | goalContribute (source : Address) (goalId : Nat) (amount : Int)
  | goalClaim (owner : Address) (goalId : Nat)
  | goalSetAutoRenew (owner : Address) (goalId : Nat) (autoRenew : Bool)
  | groupCreate (creator : Address) (name : String)
  | groupJoin (member : Address) (groupId : Nat)
  | groupContribute (member : Address) (groupId : Nat) (amount : Int)
  | groupClose (creator : Address) (groupId : Nat)
  | groupPayoutEqual (caller : Address) (groupId : Nat)
  | groupSetShares (creator : Address) (groupId : Nat) (sharesBps : SortedMap Address Nat)
  | groupSettle (caller : Address) (groupId : Nat)
  | groupSetVotingPeriod (creator : Address) (groupId seconds : Nat)
  | groupPropose (proposer : Address) (groupId : Nat) (recipient : Address) (amount : Int)
  | groupVote (voter : Address) (proposalId : Nat) (approve : Bool)
  | groupExecute (caller : Address) (proposalId : Nat)
  | interestDeposit (owner : Address) (amount : Int)
  | interestWithdraw (owner : Address) (amount : Int)
  | interestClaim (owner : Address)
  | insuranceFund (caller : Address) (amount : Int)
  | insuranceRedeemClaim (claimant : Address)
  | rewardsFundPool (caller : Address) (amount : Int)
  | rewardsClaim (owner : Address)

def Op.isSetup : Op → Bool
  | .setup _ _ => true
  | _ => false

variable {W : Type} (H : Host W) (ctx : Ctx)

def ConfigOp.exec : ConfigOp → Action W Unit
  | .setAdmin newAdmin => Vault.setAdmin H ctx newAdmin
  | .setPaused caller paused => Vault.setPaused H ctx caller paused
  | .setDepositCap cap => Vault.setDepositCap H ctx cap
  | .setMinDeposit min => Vault.setMinDeposit H ctx min
  | .setEarlyWithdrawPenaltyBps bps => Vault.setEarlyWithdrawPenaltyBps H ctx bps
  | .setPenaltyRecipient recipient => Vault.setPenaltyRecipient H ctx recipient
  | .setMinLockPeriod seconds => Vault.setMinLockPeriod H ctx seconds
  | .upgrade caller newWasmHash => Vault.upgrade H ctx caller newWasmHash
  | .setEmergencyMode caller active => Vault.setEmergencyMode H ctx caller active
  | .setUpgradeDelay caller seconds => Vault.setUpgradeDelay H ctx caller seconds
  | .proposeUpgrade caller newWasmHash => Vault.proposeUpgrade H ctx caller newWasmHash
  | .executeUpgrade caller => Vault.executeUpgrade H ctx caller
  | .cancelUpgrade caller => Vault.cancelUpgrade H ctx caller
  | .migrate caller => Vault.migrate H ctx caller
  | .setInterestRate caller rateBps => Vault.setInterestRate H ctx caller rateBps
  | .setInterestFrequency caller frequency => Vault.setInterestFrequency H ctx caller frequency
  | .setInsurancePremiumBps caller bps => Vault.setInsurancePremiumBps H ctx caller bps
  | .setInsuranceMaxClaimBps caller bps => Vault.setInsuranceMaxClaimBps H ctx caller bps
  | .insuranceApproveClaim caller claimant amount =>
    Vault.insuranceApproveClaim H ctx caller claimant amount
  | .delegateSavings owner delegate level expiresAt =>
    Vault.delegateSavings H ctx owner delegate level expiresAt
  | .updateDelegation owner delegate level expiresAt =>
    Vault.updateDelegation H ctx owner delegate level expiresAt
  | .revokeDelegation owner delegate => Vault.revokeDelegation H ctx owner delegate
  | .rewardsSetConfig caller config => Vault.rewardsSetConfig H ctx caller config
  | .rewardsPing owner => Vault.rewardsPing H ctx owner
  | .rewardsAccrue owner => (Vault.rewardsAccrue ctx owner).void

def Op.exec : Op → Action W Unit
  | .setup admin token => initializeVault ctx admin token
  | .config op => op.exec H ctx
  | .deposit source amount => Vault.deposit H ctx source amount
  | .withdraw owner amount => Vault.withdraw H ctx owner amount
  | .delegatedDeposit delegate owner amount => Vault.delegatedDeposit H ctx delegate owner amount
  | .delegatedWithdraw delegate owner amount => Vault.delegatedWithdraw H ctx delegate owner amount
  | .lockedCreate owner amount unlockAt => (Vault.lockedCreate H ctx owner amount unlockAt).void
  | .lockedTopUp owner planId amount => Vault.lockedTopUp H ctx owner planId amount
  | .lockedWithdraw owner planId amount => Vault.lockedWithdraw H ctx owner planId amount
  | .lockedEarlyWithdraw owner planId amount => Vault.lockedEarlyWithdraw H ctx owner planId amount
  | .lockedEmergencyWithdraw owner planId => Vault.lockedEmergencyWithdraw H ctx owner planId
  | .goalCreate owner name targetAmount => (Vault.goalCreate H ctx owner name targetAmount).void
  | .goalContribute source goalId amount => Vault.goalContribute H ctx source goalId amount
  | .goalClaim owner goalId => Vault.goalClaim H ctx owner goalId
  | .goalSetAutoRenew owner goalId autoRenew => Vault.goalSetAutoRenew H ctx owner goalId autoRenew
  | .groupCreate creator name => (Vault.groupCreate H ctx creator name).void
  | .groupJoin member groupId => Vault.groupJoin H ctx member groupId
  | .groupContribute member groupId amount => Vault.groupContribute H ctx member groupId amount
  | .groupClose creator groupId => Vault.groupClose H ctx creator groupId
  | .groupPayoutEqual caller groupId => Vault.groupPayoutEqual H ctx caller groupId
  | .groupSetShares creator groupId sharesBps =>
    Vault.groupSetShares H ctx creator groupId sharesBps
  | .groupSettle caller groupId => Vault.groupSettle H ctx caller groupId
  | .groupSetVotingPeriod creator groupId seconds =>
    Vault.groupSetVotingPeriod H ctx creator groupId seconds
  | .groupPropose proposer groupId recipient amount =>
    (Vault.groupPropose H ctx proposer groupId recipient amount).void
  | .groupVote voter proposalId approve => Vault.groupVote H ctx voter proposalId approve
  | .groupExecute caller proposalId => (Vault.groupExecute H ctx caller proposalId).void
  | .interestDeposit owner amount => Vault.interestDeposit H ctx owner amount
  | .interestWithdraw owner amount => Vault.interestWithdraw H ctx owner amount
  | .interestClaim owner => (Vault.interestClaim H ctx owner).void
  | .insuranceFund caller amount => Vault.insuranceFund H ctx caller amount
  | .insuranceRedeemClaim claimant => (Vault.insuranceRedeemClaim H ctx claimant).void
  | .rewardsFundPool caller amount => Vault.rewardsFundPool H ctx caller amount
  | .rewardsClaim owner => (Vault.rewardsClaim H ctx owner).void

/-- A call of the vault, or a token transfer it has no part in making. -/
inductive Move where
  | call (ctx : Ctx) (op : Op)
  | wallet (source target : Address) (amount : Int)

/-- Only the vault moves its own tokens. -/
def World.wallet (w : World) (self source target : Address) (amount : Int) : World :=
  if source = self then w
  else ((w.tokens.transfer source target amount).map (⟨·, w.journal⟩)).getD w

def step (self : Address) (s : Sys World) : Move → Sys World
  | .call ctx op => (op.exec (exact self) ctx).after s
  | .wallet source target amount => { s with world := s.world.wallet self source target amount }

/-- A vault that was deployed and never called. -/
def Sys.deployed (tokens : Ledger Address) : Sys World := ⟨Store.deployed, [], ⟨tokens, []⟩⟩

/-! ### Configuration -/

/-- Two stores with the same balances, records and counters. -/
structure Store.SameRecords (a b : Store) : Prop where
  admin : b.admin = none ↔ a.admin = none
  token : b.token = a.token
  flexible : b.flexible = a.flexible
  locked : b.locked = a.locked
  goals : b.goals = a.goals
  goalContributions : b.goalContributions = a.goalContributions
  groups : b.groups = a.groups
  proposals : b.proposals = a.proposals
  interestAccounts : b.interestAccounts = a.interestAccounts
  insuranceFundBalance : b.insuranceFundBalance = a.insuranceFundBalance
  rewardPoolBalance : b.rewardPoolBalance = a.rewardPoolBalance
  nextLockedId : b.nextLockedId = a.nextLockedId
  nextGoalId : b.nextGoalId = a.nextGoalId
  nextGroupId : b.nextGroupId = a.nextGroupId
  nextProposalId : b.nextProposalId = a.nextProposalId
  penalty : a.earlyWithdrawPenaltyBps ≤ 10000 → b.earlyWithdrawPenaltyBps ≤ 10000

/-- The fields that `SameRecords` compares, as one value. -/
def Store.records (st : Store) :=
  (st.token, st.flexible, st.locked, st.goals, st.goalContributions, st.groups, st.proposals,
    st.interestAccounts, st.insuranceFundBalance, st.rewardPoolBalance, st.nextLockedId,
    st.nextGoalId, st.nextGroupId, st.nextProposalId)

theorem Store.SameRecords.of_records {a b : Store} (h : b.records = a.records)
    (ha : b.admin = none ↔ a.admin = none)
    (hp : a.earlyWithdrawPenaltyBps ≤ 10000 → b.earlyWithdrawPenaltyBps ≤ 10000) :
    a.SameRecords b := by
  simp only [Store.records, Prod.mk.injEq] at h
  obtain ⟨h1, h2, h3, h4, h5, h6, h7, h8, h9, h10, h11, h12, h13, h14⟩ := h
  exact ⟨ha, h1, h2, h3, h4, h5, h6, h7, h8, h9, h10, h11, h12, h13, h14, hp⟩

variable {ctx} {self : Address} {s t : Sys World} {u : Unit}

/-- What a configuration call that succeeds leaves of the storage. -/
def ConfigOp.Writes (op : ConfigOp) (self : Address) (ctx : Ctx) (a b : Store) : Prop :=
  match op with
  | .setAdmin newAdmin => a.admin ≠ none ∧ b = { a with admin := some newAdmin }
  | .setPaused _ paused => b = { a with paused := paused }
  | .setDepositCap cap => b = { a with depositCap := cap }
  | .setMinDeposit min => b = { a with minDeposit := min }
  | .setEarlyWithdrawPenaltyBps bps => bps ≤ 10000 ∧ b = { a with earlyWithdrawPenaltyBps := bps }
  | .setPenaltyRecipient recipient => b = { a with penaltyRecipient := some recipient }
  | .setMinLockPeriod seconds => b = { a with minLockPeriod := seconds }
  | .upgrade _ _ | .migrate _ => b = a
  | .setEmergencyMode _ active => b = { a with emergencyMode := active }
  | .setUpgradeDelay _ seconds => b = { a with upgradeDelay := seconds }
  | .proposeUpgrade caller newWasmHash => b = { a with
      pendingUpgrade := some ⟨newWasmHash, caller, ctx.now, ctx.now + a.upgradeDelay⟩ }
  | .executeUpgrade _ => b = { a with version := a.version + 1, pendingUpgrade := none }
  | .cancelUpgrade _ => b = { a with pendingUpgrade := none }
  | .setInterestRate _ rateBps => b = { a with interestRateBps := rateBps }
  | .setInterestFrequency _ frequency => b = { a with interestFrequency := frequency }
  | .setInsurancePremiumBps _ bps => b = { a with insurancePremiumBps := bps }
  | .setInsuranceMaxClaimBps _ bps => b = { a with insuranceMaxClaimBps := bps }
  | .insuranceApproveClaim _ claimant amount => b = { a with
      insuranceClaims := a.insuranceClaims.set claimant ⟨claimant, amount, ctx.now, false⟩ }
  | .delegateSavings owner delegate level expiresAt =>
    owner ≠ self ∧ owner ≠ delegate ∧
      b = a.setDelegation owner delegate ⟨owner, delegate, level, expiresAt, ctx.now, ctx.now⟩
  | .updateDelegation owner delegate level expiresAt =>
    ∃ d, a.delegations.get (toLex (owner, delegate)) = some d ∧
      b = a.setDelegation owner delegate
        { d with level := level, expiresAt := expiresAt, updatedAt := ctx.now }
  | .revokeDelegation owner delegate =>
    b = { a with delegations := a.delegations.remove (toLex (owner, delegate)) }
  | .rewardsSetConfig _ config =>
    validateConfig config = true ∧ b = { a with rewardsConfig := config }
  | .rewardsPing owner => ∃ account, a.interestAccounts.get owner = some account ∧
      b = a.setRewardState owner ((a.rewardStateOf owner account).touch a.rewardsConfig ctx.now)
  | .rewardsAccrue owner => (a.interestAccounts.get owner = none ∧ b = a) ∨
      ∃ account state accrued, a.interestAccounts.get owner = some account ∧
        (a.rewardStateOf owner account).accrue a.rewardsConfig account ctx.now =
          some (state, accrued) ∧ b = a.setRewardState owner state

/-- The outside world only changes when new code is installed. -/
theorem ConfigOp.exec_effect {H : Host W} {s t : Sys W} {op : ConfigOp}
    (h : op.exec H ctx s = .ok (u, t)) :
    op.Writes H.self ctx s.store t.store ∧
      (t.world = s.world ∨ ∃ code, H.updateWasm code s.world = some t.world) := by
  cases op with
  | setAdmin newAdmin =>
    simp only [exec, Vault.setAdmin, entry_rules] at h
    obtain ⟨-, admin, ⟨had, -⟩, rfl⟩ := h
    exact ⟨⟨by simp [had], rfl⟩, .inl rfl⟩
  | setPaused | setEmergencyMode | setUpgradeDelay | migrate =>
    simp only [exec, Vault.setPaused, Vault.setEmergencyMode, Vault.setUpgradeDelay, Vault.migrate,
      requireAdmin_ok, entry_rules] at h
    obtain ⟨-, -, rfl⟩ := h
    exact ⟨rfl, .inl rfl⟩
  | setDepositCap | setMinDeposit =>
    simp only [exec, Vault.setDepositCap, Vault.setMinDeposit, entry_rules] at h
    obtain ⟨-, _, -, -, rfl⟩ := h
    exact ⟨rfl, .inl rfl⟩
  | setEarlyWithdrawPenaltyBps bps =>
    simp only [exec, Vault.setEarlyWithdrawPenaltyBps, entry_rules] at h
    obtain ⟨-, _, -, hb, rfl⟩ := h
    exact ⟨⟨hb, rfl⟩, .inl rfl⟩
  | setPenaltyRecipient | setMinLockPeriod =>
    simp only [exec, Vault.setPenaltyRecipient, Vault.setMinLockPeriod, entry_rules] at h
    obtain ⟨-, _, -, rfl⟩ := h
    exact ⟨rfl, .inl rfl⟩
  | upgrade caller newWasmHash =>
    simp only [exec, Vault.upgrade, entry_rules] at h
    obtain ⟨-, -, _, hc, rfl⟩ := h
    exact ⟨rfl, .inr ⟨newWasmHash, hc⟩⟩
  | proposeUpgrade caller newWasmHash =>
    simp only [exec, Vault.proposeUpgrade, entry_rules] at h
    obtain ⟨-, -, -, _, haf, rfl⟩ := h
    obtain ⟨-, rfl⟩ := checkedAddU64_some.mp haf
    exact ⟨rfl, .inl rfl⟩
  | executeUpgrade caller =>
    simp only [exec, Vault.executeUpgrade, entry_rules] at h
    obtain ⟨-, -, proposal, -, -, _, hc, _, hvr, rfl⟩ := h
    obtain ⟨-, rfl⟩ := checkedAddU32_some.mp hvr
    exact ⟨rfl, .inr ⟨proposal.newWasmHash, hc⟩⟩
  | cancelUpgrade | setInterestFrequency | setInsurancePremiumBps | setInsuranceMaxClaimBps =>
    simp only [exec, Vault.cancelUpgrade, Vault.setInterestFrequency, Vault.setInsurancePremiumBps,
      Vault.setInsuranceMaxClaimBps, entry_rules] at h
    obtain ⟨-, -, -, rfl⟩ := h
    exact ⟨rfl, .inl rfl⟩
  | setInterestRate | revokeDelegation =>
    simp only [exec, Vault.setInterestRate, Vault.revokeDelegation, entry_rules] at h
    obtain ⟨-, -, -, -, rfl⟩ := h
    exact ⟨rfl, .inl rfl⟩
  | insuranceApproveClaim caller claimant amount =>
    simp only [exec, Vault.insuranceApproveClaim, entry_rules] at h
    obtain ⟨-, -, -, _, -, -, -, -, rfl⟩ := h
    exact ⟨rfl, .inl rfl⟩
  | delegateSavings owner delegate level expiresAt =>
    simp only [exec, Vault.delegateSavings, validateExpiry, entry_rules] at h
    obtain ⟨-, -, ⟨-, hsl⟩, hne, -, -, rfl⟩ := h
    exact ⟨⟨hsl, hne, rfl⟩, .inl rfl⟩
  | updateDelegation owner delegate level expiresAt =>
    simp only [exec, Vault.updateDelegation, validateExpiry, entry_rules] at h
    obtain ⟨-, -, -, -, d, hd, rfl⟩ := h
    exact ⟨⟨d, hd, rfl⟩, .inl rfl⟩
  | rewardsSetConfig caller config =>
    simp only [exec, Vault.rewardsSetConfig, entry_rules] at h
    obtain ⟨-, -, -, hv, rfl⟩ := h
    exact ⟨⟨hv, rfl⟩, .inl rfl⟩
  | rewardsPing owner =>
    obtain ⟨account, ha, hs, hw⟩ := rewardsPing_ok h
    exact ⟨⟨account, ha, hs⟩, .inl hw⟩
  | rewardsAccrue owner =>
    obtain ⟨_, h⟩ := of_void h
    obtain ⟨hw, ⟨hn, -, hs⟩ | ⟨account, state, ha, hac, hs⟩⟩ :=
      rewardsAccrue_ok h
    · exact ⟨.inl ⟨hn, hs⟩, .inl hw⟩
    · exact ⟨.inr ⟨account, state, _, ha, hac, hs⟩, .inl hw⟩

theorem ConfigOp.exec_writes {op : ConfigOp} (h : op.exec (exact self) ctx s = .ok (u, t)) :
    op.Writes self ctx s.store t.store ∧ t.world = s.world := by
  obtain ⟨hw, hwr | ⟨_, hc⟩⟩ := exec_effect h
  · exact ⟨hw, hwr⟩
  · exact ⟨hw, (Option.some.inj hc).symm⟩

/-- A call that only configures leaves every record and the tokens alone. -/
theorem ConfigOp.exec_ok {op : ConfigOp} (h : op.exec (exact self) ctx s = .ok (u, t)) :
    s.store.SameRecords t.store ∧ t.world = s.world := by
  obtain ⟨hw, hwr⟩ := exec_writes h
  refine ⟨?_, hwr⟩
  cases op with
  | setAdmin newAdmin =>
    obtain ⟨ha, hs⟩ := hw
    exact hs ▸ .of_records rfl (by simp [ha]) id
  | setEarlyWithdrawPenaltyBps bps =>
    obtain ⟨hb, hs⟩ := hw
    exact hs ▸ .of_records rfl Iff.rfl (fun _ => hb)
  | delegateSavings | updateDelegation | rewardsPing =>
    obtain ⟨_, -, hs⟩ := hw
    exact hs ▸ .of_records rfl Iff.rfl id
  | rewardsSetConfig caller config =>
    obtain ⟨-, hs⟩ := hw
    exact hs ▸ .of_records rfl Iff.rfl id
  | rewardsAccrue owner =>
    rcases hw with ⟨-, hs⟩ | ⟨_, _, _, -, -, hs⟩
    · exact hs ▸ .of_records rfl Iff.rfl id
    · exact hs ▸ .of_records rfl Iff.rfl id
  | _ => exact hw ▸ .of_records rfl Iff.rfl id

/-- How one call can change a group: members join while it is open, shares are set once it is not,
and it never opens again. -/
structure Group.Evolves (g g' : Group) : Prop where
  creator : g'.creator = g.creator
  members : g'.members = g.members ∨
    g.isOpen = true ∧ ∃ m, m ∉ g.members ∧ g'.members = g.members ++ [m]
  closed : g.isOpen = false → g'.isOpen = false
  shares : g'.sharesBps = g.sharesBps ∨
    g'.members = g.members ∧ sumShares g.members g'.sharesBps.entries 0 = some totalBps

theorem Group.Evolves.refl (g : Group) : g.Evolves g := ⟨rfl, .inl rfl, fun h => h, .inl rfl⟩

theorem Group.Evolves.members_of_closed {g g' : Group} (h : g.Evolves g')
    (hc : g.isOpen = false) : g'.members = g.members := by
  rcases h.members with hs | ⟨ho, -⟩
  · exact hs
  · simp [hc] at ho

/-- A group with members has members afterwards. -/
theorem Group.Evolves.members_ne {g g' : Group} (h : g.Evolves g') (hne : g.members ≠ []) :
    g'.members ≠ [] := by
  rcases h.members with hs | ⟨-, m, -, hs⟩
  · exact hs ▸ hne
  · simp [hs]

theorem Store.setGroup_self {st : Store} {id : Nat} {g : Group} (h : st.groups.get id = some g) :
    st.setGroup id g = st := by
  rw [Store.setGroup, SortedMap.set_self h]

/-- The calls that change a group that is there. -/
def Op.regroups : Op → Bool
  | .groupJoin _ _ | .groupContribute _ _ _ | .groupClose _ _ | .groupPayoutEqual _ _
  | .groupSetShares _ _ _ | .groupSettle _ _ | .groupSetVotingPeriod _ _ _
  | .groupExecute _ _ => true
  | _ => false

/-- Such a call changes one group, and the proposal it executes. The tokens that it moves are the
change of the balance. -/
theorem exec_regroups {op : Op} (hop : op.regroups = true)
    (h : op.exec (exact self) ctx s = .ok (u, t)) :
    ∃ id g g' proposals, s.store.groups.get id = some g ∧
      t.store = { s.store.setGroup id g' with proposals := proposals } ∧ g.Evolves g' ∧
      (0 ≤ g.balance ∧ g.members ≠ [] → 0 ≤ g'.balance ∧
        ∃ change, World.Moved self change s.world t.world ∧ g'.balance = g.balance + change) := by
  cases op with
  | groupJoin member groupId =>
    simp only [Op.exec, groupJoin, entry_rules] at h
    obtain ⟨-, -, -, group, hg, ho, h⟩ := h
    rcases ite_ok.mp h with ⟨-, h⟩ | ⟨hm, h⟩
    · obtain ⟨-, rfl⟩ := pure_ok.mp h
      exact ⟨groupId, group, group, _, hg, by rw [Store.setGroup_self hg], .refl group,
        fun hb => ⟨hb.1, 0, .still rfl, (add_zero _).symm⟩⟩
    · simp only [bind_rules] at h
      obtain rfl := h
      exact ⟨groupId, group, _, _, hg, rfl, ⟨rfl, .inr ⟨ho, member, hm, rfl⟩, id, .inl rfl⟩,
        fun hb => ⟨hb.1, 0, .still rfl, (add_zero _).symm⟩⟩
  | groupClose | groupSetVotingPeriod =>
    simp only [Op.exec, groupClose, groupSetVotingPeriod, entry_rules] at h
    obtain ⟨-, -, -, group, hg, -, rfl⟩ := h
    exact ⟨_, group, _, _, hg, rfl, ⟨rfl, .inl rfl, by simp, .inl rfl⟩,
      fun hb => ⟨hb.1, 0, .still rfl, (add_zero _).symm⟩⟩
  | groupSetShares creator groupId sharesBps =>
    simp only [Op.exec, groupSetShares, entry_rules] at h
    obtain ⟨-, -, -, group, hg, -, -, hs, rfl⟩ := h
    exact ⟨groupId, group, _, _, hg, rfl, ⟨rfl, .inl rfl, id, .inr ⟨rfl, hs⟩⟩,
      fun hb => ⟨hb.1, 0, .still rfl, (add_zero _).symm⟩⟩
  | groupContribute member groupId amount =>
    obtain ⟨hne, hps, group, hg, -, hw, hst⟩ := groupContribute_ok h
    exact ⟨groupId, group, _, _, hg, hst, ⟨rfl, .inl rfl, id, .inl rfl⟩,
      fun hb => ⟨add_nonneg hb.1 hps.le, amount, World.pay_in hne hw, rfl⟩⟩
  | groupPayoutEqual caller groupId =>
    obtain ⟨group, hg, -, hne, hpy, hst⟩ := groupPayoutEqual_ok h
    exact ⟨groupId, group, _, _, hg, hst, ⟨rfl, .inl rfl, id, .inl rfl⟩, fun hb => ⟨le_refl 0,
      _, equalPayouts_sum hne hb.1 ▸ World.payAll_out hpy, (add_neg_cancel _).symm⟩⟩
  | groupSettle caller groupId =>
    obtain ⟨group, payouts, hg, -, -, hp, hpy, -, hst⟩ := groupSettle_ok h
    exact ⟨groupId, group, _, _, hg, hst, ⟨rfl, .inl rfl, id, .inl rfl⟩, fun hb => ⟨le_refl 0,
      _, splitPayouts_sum hb.2 hp ▸ World.payAll_out hpy, (add_neg_cancel _).symm⟩⟩
  | groupExecute caller proposalId =>
    obtain ⟨_, h⟩ := of_void h
    obtain ⟨proposal, group, -, -, -, hg, ⟨-, -, -, hle, hw, hst⟩ | ⟨-, -, hw, hst⟩⟩ :=
      groupExecute_ok h
    · exact ⟨_, group, _, _, hg, hst, ⟨rfl, .inl rfl, id, .inl rfl⟩,
        fun _ => ⟨sub_nonneg.mpr hle, _, World.pay_out hw, sub_eq_add_neg _ _⟩⟩
    · refine ⟨_, group, group, t.store.proposals, hg, ?_, .refl group,
        fun hb => ⟨hb.1, 0, .still hw, (add_zero _).symm⟩⟩
      rw [Store.setGroup_self hg, hst]
      rfl
  | _ => cases hop

/-- A property of states that every successful call and every outside transfer keeps is kept by
every step. -/
theorem step_induction {I : Sys World → Prop} {P : Sys World → Move → Prop}
    (hc : ∀ ctx op s t u, I s → P s (.call ctx op) → op.exec (exact self) ctx s = .ok (u, t) →
      I t)
    (hw : ∀ source target amount s, I s →
      I { s with world := s.world.wallet self source target amount })
    (s : Sys World) (e : Move) (hs : I s) (hp : P s e) : I (step self s e) := by
  cases e with
  | wallet source target amount => exact hw source target amount s hs
  | call ctx op => exact Call.after_induction hs (fun u t => hc ctx op s t u hs hp)

/-- The same of a watched vault whose record a failed call leaves alone. -/
theorem watch_induction {B : Type} {note : Sys World → Move → B → B} {I : Sys World × B → Prop}
    {P : Sys World × B → Move → Prop}
    (hc : ∀ {ctx op s b t u}, I (s, b) → P (s, b) (.call ctx op) →
      op.exec (exact self) ctx s = .ok (u, t) → I (t, note s (.call ctx op) b))
    (hf : ∀ {ctx op s b err}, op.exec (exact self) ctx s = .error err →
      note s (.call ctx op) b = b)
    (hw : ∀ {source target amount s b}, I (s, b) →
      I ({ s with world := s.world.wallet self source target amount },
        note s (.wallet source target amount) b))
    (p : Sys World × B) (e : Move) (hp : I p) (he : P p e) : I (watch (step self) note p e) := by
  cases e with
  | wallet source target amount => exact hw hp
  | call ctx op =>
    rcases Call.after_cases (op.exec (exact self) ctx) p.1 with ⟨u, t, hok, ht⟩ | ⟨⟨_, her⟩, ht⟩
    · simpa only [watch, step, ht] using hc hp he hok
    · simpa only [watch, step, ht, hf her] using hp

/-- A saver with a million units. The vault is at address 0, its admin at 1, the token at 9. -/
def purse : Ledger Address := fun a => if a = 2 then 1000000 else 0

end Stow.Vault
