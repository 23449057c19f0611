import Mathlib.Data.Prod.Lex
import Stow.Lib.SortedMap
import Stow.Lib.Contract

/-! The records of the savings vault, its storage, and the token it calls. -/
namespace Stow.Vault

open Stow.Lib Stow.Lib.Contract

abbrev Address := Nat

/-- The error codes a call can return. -/
inductive Error where
  | alreadyInitialized | notInitialized | unauthorized | invalidAmount | notFound
  | insufficientBalance | invalidParameters | invalidAddress | invalidTimestamp | stillLocked
  | invalidUnlockTime | goalNotReached | groupClosed | invalidShares | notAMember
  | memberAlreadyExists | insufficientGroupFunds | alreadyVoted | proposalAlreadyExecuted | overflow
  | depositCapExceeded | paused | notPaused | emergencyShutdown | depositBelowMinimum
  | operationExpired | timeWindowNotOpen | conflictingState | sameLedger | reentrantCall
  | invalidRewardConfig | timelockNotReady | timelockExpired | timelockAlreadyExecuted
  | timelockCancelled | timelockDelayTooShort | timelockDelayTooLong | cooldownActive
  | divisionByZero
  deriving Repr, DecidableEq

structure FlexibleAccount where
  owner : Address
  balance : Int
  createdAt : Nat
  updatedAt : Nat
  deriving Repr, DecidableEq

structure LockedPlan where
  id : Nat
  owner : Address
  balance : Int
  unlockAt : Nat
  createdAt : Nat
  deriving Repr, DecidableEq

structure Goal where
  id : Nat
  owner : Address
  name : String
  targetAmount : Int
  savedAmount : Int
  createdAt : Nat
  reachedAt : Option Nat
  autoRenew : Bool
  deriving Repr, DecidableEq

structure Group where
  id : Nat
  creator : Address
  name : String
  members : List Address
  balance : Int
  sharesBps : SortedMap Address Nat
  isOpen : Bool
  createdAt : Nat
  votingPeriod : Nat

structure Proposal where
  id : Nat
  groupId : Nat
  proposer : Address
  recipient : Address
  amount : Int
  votingEndsAt : Nat
  yesVoters : List Address
  noVoters : List Address
  createdAt : Nat
  executed : Bool
  passed : Bool
  deriving Repr, DecidableEq

inductive CompoundFrequency where
  | daily | weekly | monthly | quarterly | annually
  deriving Repr, DecidableEq

def CompoundFrequency.periodSeconds : CompoundFrequency → Nat
  | .daily => 86400
  | .weekly => 604800
  | .monthly => 2592000
  | .quarterly => 7776000
  | .annually => 31536000

def CompoundFrequency.periodsPerYear : CompoundFrequency → Nat
  | .daily => 365
  | .weekly => 52
  | .monthly => 12
  | .quarterly => 4
  | .annually => 1

structure InterestAccount where
  owner : Address
  principal : Int
  lastCompoundAt : Nat
  rateBps : Nat
  frequency : CompoundFrequency
  createdAt : Nat
  updatedAt : Nat
  deriving Repr, DecidableEq

structure UpgradeProposal where
  newWasmHash : Nat
  proposedBy : Address
  proposedAt : Nat
  executeAfter : Nat
  deriving Repr, DecidableEq

structure InsuranceClaimRecord where
  claimant : Address
  amount : Int
  approvedAt : Nat
  redeemed : Bool
  deriving Repr, DecidableEq

/-- What a delegate may do, from least to most. -/
inductive PermissionLevel where
  | viewOnly | deposit | full
  deriving Repr, DecidableEq

def PermissionLevel.rank : PermissionLevel → Nat
  | .viewOnly => 0
  | .deposit => 1
  | .full => 2

structure Delegation where
  owner : Address
  delegate : Address
  level : PermissionLevel
  expiresAt : Option Nat
  createdAt : Nat
  updatedAt : Nat
  deriving Repr, DecidableEq

structure LoyaltyTier where
  minSeconds : Nat
  multiplierBps : Nat
  deriving Repr, DecidableEq

structure RewardsConfig where
  baseRateBps : Nat
  accrualPeriodSeconds : Nat
  loyaltyTiers : List LoyaltyTier
  loyaltyCapBps : Nat
  streakBonusBpsPerPeriod : Nat
  streakBonusCapBps : Nat
  streakPeriodSeconds : Nat
  deriving Repr, DecidableEq

structure RewardState where
  owner : Address
  pending : Int
  lastAccruedAt : Nat
  streak : Nat
  streakPeriodStart : Nat
  streakPeriodKept : Bool
  deriving Repr, DecidableEq

/-- Thirty, ninety and a hundred and eighty days. -/
def defaultConfig : RewardsConfig where
  baseRateBps := 500
  accrualPeriodSeconds := 604800
  loyaltyTiers := [⟨2592000, 11000⟩, ⟨7776000, 12500⟩, ⟨15552000, 15000⟩]
  loyaltyCapBps := 20000
  streakBonusBpsPerPeriod := 100
  streakBonusCapBps := 500
  streakPeriodSeconds := 604800

/-- The events the vault publishes, with their data tuples. -/
inductive Event where
  | init (admin token : Address) (schemaVersion timestamp : Nat)
  | adminSet (previousAdmin newAdmin : Address) (timestamp : Nat)
  | upgraded (caller : Address) (newWasmHash timestamp : Nat)
  | upgradeProposed (caller : Address) (newWasmHash now executeAfter : Nat)
  | upgradeCancelled (caller : Address) (timestamp : Nat)
  | emergencyModeSet (caller : Address) (active : Bool) (timestamp : Nat)
  | deposit (owner : Address) (amount newBalance : Int) (timestamp : Nat)
  | withdraw (owner : Address) (amount newBalance : Int) (timestamp : Nat)
  | delegationGranted (owner delegate : Address) (level : PermissionLevel)
      (expiresAt timestamp : Nat)
  | delegationUpdated (owner delegate : Address) (level : PermissionLevel)
      (expiresAt timestamp : Nat)
  | delegationRevoked (owner delegate : Address) (timestamp : Nat)
  | lockedCreated (id : Nat) (owner : Address) (amount : Int) (unlockAt timestamp : Nat)
  | lockedTopUp (id : Nat) (owner : Address) (amount newBalance : Int) (timestamp : Nat)
  | lockedWithdraw (id : Nat) (owner : Address) (amount newBalance : Int) (timestamp : Nat)
  | lockedEarlyWithdraw (id : Nat) (owner : Address) (amount penalty newBalance : Int)
      (timestamp : Nat)
  | emergencyWithdraw (id : Nat) (owner : Address) (amount : Int) (timestamp : Nat)
  | goalCreated (id : Nat) (owner : Address) (name : String) (targetAmount : Int)
      (timestamp : Nat)
  | goalContribution (id : Nat) (contributor : Address) (amount newSaved : Int) (timestamp : Nat)
  | goalReached (id : Nat) (owner : Address) (newSaved targetAmount : Int) (timestamp : Nat)
  | goalSplitPaid (id : Nat) (contributor : Address) (amount : Int) (timestamp : Nat)
  | goalClaimed (id : Nat) (owner : Address) (savedAmount : Int) (timestamp : Nat)
  | goalRenewed (id : Nat) (owner : Address) (targetAmount : Int) (timestamp : Nat)
  | goalAutoRenewSet (id : Nat) (owner : Address) (autoRenew : Bool) (timestamp : Nat)
  | groupCreated (id : Nat) (creator : Address) (name : String) (timestamp : Nat)
  | groupJoined (id : Nat) (member : Address)
  | groupContribution (id : Nat) (member : Address) (amount : Int)
  | groupClosed (id : Nat) (creator : Address)
  | groupPayout (id : Nat) (member : Address) (amount : Int)
  | groupSharesSet (id : Nat) (creator : Address) (sharesBps : SortedMap Address Nat)
      (timestamp : Nat)
  | groupSplitSettled (id : Nat) (member : Address) (amount : Int) (timestamp : Nat)
  | groupVotingPeriodSet (id : Nat) (creator : Address) (seconds timestamp : Nat)
  | groupProposalCreated (id groupId : Nat) (recipient : Address) (amount : Int)
      (votingEndsAt timestamp : Nat)
  | groupVoteCast (id groupId : Nat) (voter : Address) (approve : Bool) (timestamp : Nat)
  | groupProposalExecuted (id groupId : Nat) (caller : Address) (passed : Bool) (spent : Int)
      (timestamp : Nat)
  | interestRateSet (caller : Address) (rateBps timestamp : Nat)
  | interestFrequencySet (caller : Address) (frequency : CompoundFrequency) (timestamp : Nat)
  | interestDeposit (owner : Address) (amount principal : Int) (timestamp : Nat)
  | interestWithdraw (owner : Address) (amount principal : Int) (timestamp : Nat)
  | interestClaimed (owner : Address) (credited principal : Int) (timestamp : Nat)
  | insurancePremiumSet (caller : Address) (bps timestamp : Nat)
  | insuranceFunded (caller : Address) (amount newBalance : Int) (timestamp : Nat)
  | insuranceClaimApproved (claimant : Address) (amount : Int) (timestamp : Nat)
  | insuranceClaimRedeemed (claimant : Address) (amount newBalance : Int) (timestamp : Nat)
  | rewardConfigSet (caller : Address) (timestamp : Nat)
  | rewardFunded (caller : Address) (amount newBalance : Int) (timestamp : Nat)
  | streakUpdated (owner : Address) (streak : Nat) (kept : Bool) (timestamp : Nat)
  | rewardAccrued (owner : Address) (accrued pending : Int) (timestamp : Nat)
  | rewardClaimed (owner : Address) (payout pending newPool : Int) (timestamp : Nat)
  | challengeCreated (id : Nat) (creator : Address) (targetAmount entryFee : Int) (deadline : Nat)
  | challengeJoined (id : Nat) (participant : Address)
  | challengeSaved (id : Nat) (participant : Address) (amount : Int)
  | challengeWon (id : Nat) (participant : Address) (prize : Int) (timestamp : Nat)
  | challengeExpired (id timestamp : Nat)
  | timelockQueued (id eta expiresAt timestamp : Nat)
  | timelockExecuted (id timestamp : Nat)
  | timelockCancelled (id timestamp : Nat)
  | beneficiarySet (owner beneficiary : Address) (shareBps : Nat)
  | beneficiaryRemoved (owner beneficiary : Address)
  | inactivityTimeoutSet (owner : Address) (timeoutSeconds : Nat)
  | inheritanceClaimed (claimer owner : Address) (totalBalance : Int) (timestamp : Nat)

/-- Everything the vault keeps. A missing instance entry reads as the value of `Store.deployed`. -/
structure Store where
  admin : Option Address
  token : Option Address
  paused : Bool
  emergencyMode : Bool
  version : Nat
  upgradeDelay : Nat
  pendingUpgrade : Option UpgradeProposal
  depositCap : Int
  minDeposit : Int
  earlyWithdrawPenaltyBps : Nat
  penaltyRecipient : Option Address
  minLockPeriod : Nat
  tokenTransferActive : Bool
  nextLockedId : Nat
  nextGoalId : Nat
  nextGroupId : Nat
  nextProposalId : Nat
  insuranceFundBalance : Int
  insurancePremiumBps : Nat
  insuranceMaxClaimBps : Nat
  interestRateBps : Nat
  interestFrequency : CompoundFrequency
  rewardPoolBalance : Int
  rewardsConfig : RewardsConfig
  flexible : SortedMap Address FlexibleAccount
  locked : SortedMap Nat LockedPlan
  goals : SortedMap Nat Goal
  goalContributions : SortedMap Nat (SortedMap Address Int)
  goalLastContributionLedger : SortedMap Nat Nat
  groups : SortedMap Nat Group
  proposals : SortedMap Nat Proposal
  interestAccounts : SortedMap Address InterestAccount
  insuranceClaims : SortedMap Address InsuranceClaimRecord
  delegations : SortedMap (Address ×ₗ Address) Delegation
  rewardStates : SortedMap Address RewardState

/-- A contract that was deployed and never called. -/
def Store.deployed : Store where
  admin := none
  token := none
  paused := false
  emergencyMode := false
  version := 1
  upgradeDelay := 0
  pendingUpgrade := none
  depositCap := 0
  minDeposit := 0
  earlyWithdrawPenaltyBps := 0
  penaltyRecipient := none
  minLockPeriod := 0
  tokenTransferActive := false
  nextLockedId := 0
  nextGoalId := 0
  nextGroupId := 0
  nextProposalId := 0
  insuranceFundBalance := 0
  insurancePremiumBps := 0
  insuranceMaxClaimBps := 1000
  interestRateBps := 0
  interestFrequency := .annually
  rewardPoolBalance := 0
  rewardsConfig := defaultConfig
  flexible := .empty
  locked := .empty
  goals := .empty
  goalContributions := .empty
  goalLastContributionLedger := .empty
  groups := .empty
  proposals := .empty
  interestAccounts := .empty
  insuranceClaims := .empty
  delegations := .empty
  rewardStates := .empty

def Store.setTransferActive (st : Store) (active : Bool) : Store :=
  { st with tokenTransferActive := active }

theorem Store.setTransferActive_self {st : Store} (h : st.tokenTransferActive = false) :
    (st.setTransferActive true).setTransferActive false = st := by
  cases st
  simp only at h
  simp [setTransferActive, h]

/-- The vault's storage and published events, and the world around it. -/
abbrev Sys (W : Type) := State Store Event W

/-- What the vault reaches outside itself. A token may call back into the vault, so its transfer
acts on the whole state. -/
structure Host (W : Type) where
  self : Address
  transfer : (token source target : Address) → Int → Sys W → Option (Sys W)
  updateWasm : Nat → W → Option W

/-- The ledger time and sequence of a call and the addresses that signed it. -/
structure Ctx where
  now : Nat
  sequence : Nat
  auths : List Address

/-- A call of the vault over the world `W`. -/
abbrev Action (W α : Type) := Call Error (Sys W) α

variable {W β : Type}

def requireAuth (H : Host W) (ctx : Ctx) (a : Address) : Action W Unit :=
  requireSigned H.self ctx.auths a

theorem bind_requireAuth {H : Host W} {ctx : Ctx} {a : Address} {g : Unit → Action W β}
    {s t : Sys W} {b : β} :
    (requireAuth H ctx a >>= g) s = .ok (b, t) ↔
      (a ∈ ctx.auths ∧ a ≠ H.self) ∧ g () s = .ok (b, t) :=
  bind_requireSigned

end Stow.Vault
