import Stow.Lib.Preserve
import Stow.Vault.Sound

/-! What each call leaves alone, and where the groups after a call come from. -/
namespace Stow.Vault

open Stow.Lib Stow.Lib.Contract Stow.Lib.Call

def Store.planRecords (st : Store) := (st.locked, st.nextLockedId)

def Store.goalRecords (st : Store) := (st.goals, st.goalContributions, st.nextGoalId)

def Store.groupRecords (st : Store) := (st.groups, st.nextGroupId)

def Store.ballotRecords (st : Store) := (st.proposals, st.nextProposalId)

def Store.rewardRecords (st : Store) := (st.rewardsConfig, st.rewardPoolBalance, st.rewardStates)

def Store.insuranceRecords (st : Store) := (st.insuranceClaims, st.insuranceFundBalance)

/-- The kinds of records that are numbered. -/
inductive Kind where
  | plan | goal | group | proposal
  deriving Repr, DecidableEq

def Store.counter (st : Store) : Kind → Nat
  | .plan => st.nextLockedId
  | .goal => st.nextGoalId
  | .group => st.nextGroupId
  | .proposal => st.nextProposalId

/-- Initialization writes the counters of plans, goals and groups, but not that of proposals. -/
def Op.writesPlans : Op → Bool
  | .setup _ _ | .lockedCreate _ _ _ | .lockedTopUp _ _ _ | .lockedWithdraw _ _ _
  | .lockedEarlyWithdraw _ _ _ | .lockedEmergencyWithdraw _ _ => true
  | _ => false

def Op.writesGoals : Op → Bool
  | .setup _ _ | .goalCreate _ _ _ | .goalContribute _ _ _ | .goalClaim _ _
  | .goalSetAutoRenew _ _ _ => true
  | _ => false

def Op.writesGroups : Op → Bool
  | .setup _ _ | .groupCreate _ _ | .groupJoin _ _ | .groupContribute _ _ _ | .groupClose _ _
  | .groupPayoutEqual _ _ | .groupSetShares _ _ _ | .groupSettle _ _
  | .groupSetVotingPeriod _ _ _ | .groupExecute _ _ => true
  | _ => false

def Op.writesBallots : Op → Bool
  | .groupPropose _ _ _ _ | .groupVote _ _ _ | .groupExecute _ _ => true
  | _ => false

def Op.writesCounters : Op → Bool
  | .setup _ _ | .lockedCreate _ _ _ | .goalCreate _ _ _ | .groupCreate _ _
  | .groupPropose _ _ _ _ => true
  | _ => false

def ConfigOp.writesRewards : ConfigOp → Bool
  | .rewardsSetConfig _ _ | .rewardsPing _ | .rewardsAccrue _ => true
  | _ => false

def Op.writesRewards : Op → Bool
  | .config op => op.writesRewards
  | .interestDeposit _ _ | .interestWithdraw _ _ | .rewardsFundPool _ _ | .rewardsClaim _ => true
  | _ => false

def Op.writesInterest : Op → Bool
  | .interestDeposit _ _ | .interestWithdraw _ _ | .interestClaim _ => true
  | _ => false

def ConfigOp.writesDelegations : ConfigOp → Bool
  | .delegateSavings _ _ _ _ | .updateDelegation _ _ _ _ | .revokeDelegation _ _ => true
  | _ => false

def Op.writesDelegations : Op → Bool
  | .config op => op.writesDelegations
  | _ => false

def Op.writesFlexible : Op → Bool
  | .deposit _ _ | .withdraw _ _ | .delegatedDeposit _ _ _ | .delegatedWithdraw _ _ _ => true
  | _ => false

/-- A deposit may carry a premium for the fund. -/
def Op.writesInsurance : Op → Bool
  | .setup _ _ | .config (.insuranceApproveClaim _ _ _) | .deposit _ _ | .insuranceFund _ _
  | .insuranceRedeemClaim _ => true
  | _ => false

/-- A call leaves the records it does not write as they were. -/
structure Op.Frame (op : Op) (a b : Store) : Prop where
  plans : op.writesPlans = false → b.planRecords = a.planRecords := by exact fun _ => rfl
  goals : op.writesGoals = false → b.goalRecords = a.goalRecords := by exact fun _ => rfl
  groups : op.writesGroups = false → b.groupRecords = a.groupRecords := by exact fun _ => rfl
  ballots : op.writesBallots = false → b.ballotRecords = a.ballotRecords := by exact fun _ => rfl
  counters : op.writesCounters = false → b.counter = a.counter := by exact fun _ => rfl
  rewards : op.writesRewards = false → b.rewardRecords = a.rewardRecords := by exact fun _ => rfl
  interest : op.writesInterest = false → b.interestAccounts = a.interestAccounts := by
    exact fun _ => rfl
  delegations : op.writesDelegations = false → b.delegations = a.delegations := by
    exact fun _ => rfl
  flexible : op.writesFlexible = false → b.flexible = a.flexible := by exact fun _ => rfl
  insurance : op.writesInsurance = false → b.insuranceRecords = a.insuranceRecords := by
    exact fun _ => rfl
  admin : b.admin = none → a.admin = none := by exact id

/-- The entries of the storage that hold no balance, record or counter. -/
structure Settings where
  admin : Option Address
  token : Option Address
  paused : Bool
  emergencyMode : Bool
  upgradeDelay : Nat
  pendingUpgrade : Option UpgradeProposal
  depositCap : Int
  minDeposit : Int
  earlyWithdrawPenaltyBps : Nat
  penaltyRecipient : Option Address
  minLockPeriod : Nat
  tokenTransferActive : Bool
  interestRateBps : Nat
  interestFrequency : CompoundFrequency

def Store.settings (st : Store) : Settings where
  admin := st.admin
  token := st.token
  paused := st.paused
  emergencyMode := st.emergencyMode
  upgradeDelay := st.upgradeDelay
  pendingUpgrade := st.pendingUpgrade
  depositCap := st.depositCap
  minDeposit := st.minDeposit
  earlyWithdrawPenaltyBps := st.earlyWithdrawPenaltyBps
  penaltyRecipient := st.penaltyRecipient
  minLockPeriod := st.minLockPeriod
  tokenTransferActive := st.tokenTransferActive
  interestRateBps := st.interestRateBps
  interestFrequency := st.interestFrequency

/-- The events that open a record or add to one. -/
def Event.reports : Event → Bool
  | .deposit _ _ _ _ | .withdraw _ _ _ _ | .lockedCreated _ _ _ _ _ | .goalCreated _ _ _ _ _
  | .goalContribution _ _ _ _ _ | .goalReached _ _ _ _ _ => true
  | _ => false

def Op.reports : Op → Bool
  | .deposit _ _ | .withdraw _ _ | .delegatedDeposit _ _ _ | .delegatedWithdraw _ _ _
  | .lockedCreate _ _ _ | .goalCreate _ _ _ | .goalContribute _ _ _ => true
  | _ => false

/-- The code that an event reports as installed. -/
def Event.installed : Event → Option Nat
  | .upgraded _ newWasmHash _ => some newWasmHash
  | _ => none

/-- The calls that transfer tokens to the vault. -/
def Op.takesTokens : Op → Bool
  | .deposit _ _ | .delegatedDeposit _ _ _ | .lockedCreate _ _ _ | .lockedTopUp _ _ _
  | .goalContribute _ _ _ | .groupContribute _ _ _ | .interestDeposit _ _
  | .insuranceFund _ _ | .rewardsFundPool _ _ => true
  | _ => false

/-- What a configuration call writes, given the delegation or the reward state it computed. -/
def ConfigOp.written (op : ConfigOp) (ctx : Ctx) (a : Store) (d : Delegation)
    (state : RewardState) : Store :=
  match op with
  | .setAdmin newAdmin => { a with admin := some newAdmin }
  | .setPaused _ paused => { a with paused := paused }
  | .setDepositCap cap => { a with depositCap := cap }
  | .setMinDeposit min => { a with minDeposit := min }
  | .setEarlyWithdrawPenaltyBps bps => { a with earlyWithdrawPenaltyBps := bps }
  | .setPenaltyRecipient recipient => { a with penaltyRecipient := some recipient }
  | .setMinLockPeriod seconds => { a with minLockPeriod := seconds }
  | .upgrade _ _ | .migrate _ => a
  | .setEmergencyMode _ active => { a with emergencyMode := active }
  | .setUpgradeDelay _ seconds => { a with upgradeDelay := seconds }
  | .proposeUpgrade caller newWasmHash => { a with
      pendingUpgrade := some ⟨newWasmHash, caller, ctx.now, ctx.now + a.upgradeDelay⟩ }
  | .executeUpgrade _ => { a with version := a.version + 1, pendingUpgrade := none }
  | .cancelUpgrade _ => { a with pendingUpgrade := none }
  | .setInterestRate _ rateBps => { a with interestRateBps := rateBps }
  | .setInterestFrequency _ frequency => { a with interestFrequency := frequency }
  | .setInsurancePremiumBps _ bps => { a with insurancePremiumBps := bps }
  | .setInsuranceMaxClaimBps _ bps => { a with insuranceMaxClaimBps := bps }
  | .insuranceApproveClaim _ claimant amount => { a with
      insuranceClaims := a.insuranceClaims.set claimant ⟨claimant, amount, ctx.now, false⟩ }
  | .delegateSavings owner delegate _ _ | .updateDelegation owner delegate _ _ =>
    a.setDelegation owner delegate d
  | .revokeDelegation owner delegate =>
    { a with delegations := a.delegations.remove (toLex (owner, delegate)) }
  | .rewardsSetConfig _ config => { a with rewardsConfig := config }
  | .rewardsPing owner | .rewardsAccrue owner => a.setRewardState owner state

variable {op : ConfigOp} {self : Address} {ctx : Ctx} {a b : Store}

/-- A view of the storage that no outcome of a configuration call changes. -/
theorem ConfigOp.Writes.view {κ : Type} {f : Store → κ} (h : op.Writes self ctx a b)
    (hf : ∀ d state, f (op.written ctx a d state) = f a) : f b = f a := by
  have hs : RewardState := .fresh 0 0
  have hd : Delegation := ⟨0, 0, .viewOnly, none, 0, 0⟩
  cases op with
  | setAdmin | setEarlyWithdrawPenaltyBps | rewardsSetConfig => exact h.2 ▸ hf hd hs
  | delegateSavings owner delegate level expiresAt => exact h.2.2 ▸ hf _ hs
  | updateDelegation owner delegate level expiresAt =>
    obtain ⟨_, -, hst⟩ := h
    exact hst ▸ hf _ hs
  | rewardsPing owner =>
    obtain ⟨_, -, hst⟩ := h
    exact hst ▸ hf hd _
  | rewardsAccrue owner =>
    rcases h with ⟨-, hst⟩ | ⟨_, _, _, -, -, hst⟩
    · exact hst ▸ rfl
    · exact hst ▸ hf hd _
  | _ => exact h ▸ hf hd hs

theorem ConfigOp.Writes.rewardRecords (h : op.Writes self ctx a b)
    (hf : op.writesRewards = false) : b.rewardRecords = a.rewardRecords := by
  refine h.view fun _ _ => ?_
  cases op <;> first | rfl | exact absurd hf Bool.false_ne_true.symm

theorem ConfigOp.Writes.delegations (h : op.Writes self ctx a b)
    (hf : op.writesDelegations = false) : b.delegations = a.delegations := by
  refine h.view fun _ _ => ?_
  cases op <;> first | rfl | exact absurd hf Bool.false_ne_true.symm

theorem Op.Frame.config (h : a.SameRecords b) (hw : op.Writes self ctx a b) :
    (Op.config op).Frame a b where
  plans _ := by simp only [Store.planRecords, h.locked, h.nextLockedId]
  goals _ := by simp only [Store.goalRecords, h.goals, h.goalContributions, h.nextGoalId]
  groups _ := by simp only [Store.groupRecords, h.groups, h.nextGroupId]
  ballots _ := by simp only [Store.ballotRecords, h.proposals, h.nextProposalId]
  counters _ := by
    funext kind
    cases kind
    · exact h.nextLockedId
    · exact h.nextGoalId
    · exact h.nextGroupId
    · exact h.nextProposalId
  rewards := hw.rewardRecords
  interest _ := h.interestAccounts
  delegations := hw.delegations
  flexible _ := h.flexible
  insurance hf := by
    refine hw.view fun _ _ => ?_
    cases op <;> first | rfl | exact absurd hf Bool.false_ne_true.symm
  admin := h.admin.mp

variable {ctx : Ctx} {self : Address} {s t : Sys World} {u : Unit} {op : Op}

/-! ### The parts of an entrypoint -/

variable {W : Type} {H : Host W} {ctx : Ctx} {op : Op}

theorem Op.Frame.refl {a : Store} : op.Frame a a := {}

theorem Op.Frame.trans {a b c : Store} (hab : op.Frame a b) (hbc : op.Frame b c) :
    op.Frame a c where
  plans h := (hbc.plans h).trans (hab.plans h)
  goals h := (hbc.goals h).trans (hab.goals h)
  groups h := (hbc.groups h).trans (hab.groups h)
  ballots h := (hbc.ballots h).trans (hab.ballots h)
  counters h := (hbc.counters h).trans (hab.counters h)
  rewards h := (hbc.rewards h).trans (hab.rewards h)
  interest h := (hbc.interest h).trans (hab.interest h)
  delegations h := (hbc.delegations h).trans (hab.delegations h)
  flexible h := (hbc.flexible h).trans (hab.flexible h)
  insurance h := (hbc.insurance h).trans (hab.insurance h)
  admin h := hab.admin (hbc.admin h)

/-- The write is one of this call's, and none to the settings. -/
def Op.Permits (op : Op) (f : Store → Store) : Prop :=
  ∀ st, op.Frame st (f st) ∧ (f st).settings = st.settings

theorem noteTouch_permitted (hop : op.writesRewards = true) (owner : Address) (now : Nat) :
    op.Permits (·.noteTouch owner now) := by
  intro st
  simp only [Store.noteTouch]
  split
  · exact ⟨{ rewards := fun h => absurd (hop.symm.trans h) Bool.false_ne_true.symm }, rfl⟩
  · exact ⟨.refl, rfl⟩

theorem requireAdmin_preserves {P : Sys W → Prop} (caller : Address) :
    Preserves P (requireAdmin H ctx caller) :=
  preserves_of_eq fun h => (requireAdmin_ok.mp h).2

section

variable {P : Sys W → Prop}

theorem payEach_preserves
    (hm : ∀ target amount, Preserves P (transferOut H target amount))
    {event : Address → Int → Event}
    (he : ∀ target amount, Preserves P (publish (event target amount) : Action W Unit))
    (payments : List (Address × Int)) : Preserves P (payEach H event payments) := by
  induction payments with
  | nil => exact preserves_pure ()
  | cons p rest ih =>
    refine preserves_ite _ ih (preserves_bind (hm p.1 p.2) fun _ => ?_)
    exact preserves_bind (he p.1 p.2) fun _ => ih

/-- The other calls keep what token transfers, writes beside the settings and their own events
keep. -/
theorem exec_preserves
    (hm : ∀ source target amount, (op.takesTokens = false → source = H.self) →
      Preserves P (moveTokens H source target amount))
    (hsv : ∀ f : Store → Store, op.Permits f → Preserves P (save f : Action W Unit))
    (hp : ∀ e : Event, e.installed = none → (op.reports = false → e.reports = false) →
      Preserves P (publish e : Action W Unit))
    (hs : op.isSetup = false) (hc : ∀ cop, op ≠ .config cop) : Preserves P (op.exec H ctx) := by
  have hn (hop : op.writesRewards = true) (owner : Address) :
      Preserves P (noteTouch ctx owner : Action W Unit) := hsv _ (noteTouch_permitted hop _ _)
  cases op with
  | setup admin token => simp [Op.isSetup] at hs
  | config cop => exact absurd rfl (hc cop)
  | _ =>
    -- one rule for each way in which an entrypoint goes on
    simp only [Op.exec, deposit, withdraw, delegatedDeposit, delegatedWithdraw, lockedCreate,
      lockedTopUp, lockedWithdraw, lockedEarlyWithdraw, lockedEmergencyWithdraw, goalCreate,
      goalContribute, goalClaim, goalSetAutoRenew, groupCreate, groupJoin, groupContribute,
      groupClose, groupPayoutEqual, groupSetShares, groupSettle, groupSetVotingPeriod,
      groupPropose, groupVote, groupExecute, interestDeposit, interestWithdraw, interestClaim,
      insuranceFund, insuranceRedeemClaim, rewardsFundPool, rewardsClaim, rewardsAccrue,
      accrueAccount, payRewards, paySpending, goalFinish, payPenalty, payPositive,
      checkDelegation, extendInstanceTtl, requireNotPaused, requireNotEmergency, requireAuth,
      collectPremium, nextLockedId, nextGoalId, nextGroupId, nextProposalId, nextId,
      transferIn, transferOut, Call.void]
    repeat' with_reducible first
      | refine preserves_bind ?_ fun _ => ?_
      | exact preserves_require _ _
      | exact preserves_load _
      | exact preserves_orFail _ _
      | exact preserves_orTrap _
      | exact preserves_pure _
      | exact preserves_requireSigned _ _ _
      | refine hsv _ ?_
      | refine hp _ ?_ ?_
      | refine hm _ _ _ ?_
      | refine hn ?_ _
      | exact requireAdmin_preserves _
      | refine payEach_preserves (fun _ _ => hm _ _ _ fun _ => rfl) (fun _ _ => ?_) _
      | refine preserves_ite _ ?_ ?_
      | split
    all_goals first
      | rfl
      | exact (absurd · Bool.false_ne_true.symm)
      | exact fun _ => rfl
      | refine fun _ => ⟨?_, rfl⟩
        constructor <;> first
          | exact (absurd · Bool.false_ne_true.symm)
          | exact fun _ => rfl
          | exact id

end

theorem exec_frame (h : op.exec (exact self) ctx s = .ok (u, t)) : op.Frame s.store t.store := by
  cases op with
  | setup admin token =>
    obtain ⟨-, hs, -⟩ := initializeVault_ok h
    exact hs ▸ {
      plans := nofun, goals := nofun, groups := nofun, counters := nofun, insurance := nofun,
      admin := nofun }
  | config op => exact .config (ConfigOp.exec_ok h).1 (ConfigOp.exec_writes h).1
  | _ =>
    have hp (op : Op) (hs : op.isSetup = false) (hc : ∀ cop, op ≠ .config cop) :
        Preserves (fun v => op.Frame s.store v.store) (op.exec (exact self) ctx) := by
      refine exec_preserves (fun source target amount _ v _ w hv hm => ?_)
        (fun f hf => preserves_save fun v hv => hv.trans (hf v.store).1)
        (fun _ _ _ => preserves_publish fun _ hv => hv) hs hc
      obtain ⟨-, -, -, _, -, rfl⟩ := moveTokens_exact.mp hm
      exact hv
    refine hp _ rfl ?_ s u t .refl h
    exact nofun

/-- Every proposal was numbered by the counter. -/
theorem exec_proposalIds
    (hs : s.store.proposals.Forall (fun id _ => id ≤ s.store.nextProposalId))
    (h : op.exec (exact self) ctx s = .ok (u, t)) :
    t.store.proposals.Forall (fun id _ => id ≤ t.store.nextProposalId) := by
  cases op with
  | groupPropose proposer groupId recipient amount =>
    obtain ⟨_, h⟩ := of_void h
    obtain ⟨-, rfl, _, -, -, -, -, -, hst, -⟩ := groupPropose_ok h
    exact hst ▸ ids_succ hs
  | groupVote voter proposalId approve =>
    obtain ⟨_, _, hg, -, -, -, -, -, -, hst, -⟩ := groupVote_ok h
    exact hst ▸ hs.set (hs _ _ hg)
  | groupExecute caller proposalId =>
    obtain ⟨_, h⟩ := of_void h
    obtain ⟨_, _, hg, -, -, -, ⟨-, -, -, -, -, hst⟩ | ⟨-, -, -, hst⟩⟩ := groupExecute_ok h
    · exact hst ▸ hs.set (hs _ _ hg)
    · exact hst ▸ hs.set (hs _ _ hg)
  | _ =>
    have hsm := (exec_frame h).ballots rfl
    simp only [Store.ballotRecords, Prod.mk.injEq] at hsm
    rw [hsm.1, hsm.2]
    exact hs

end Stow.Vault
