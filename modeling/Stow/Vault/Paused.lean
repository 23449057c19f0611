import Stow.Vault.Reentrancy

/-! What the pause stops: some entrypoints ask for it, and the others never do. -/
namespace Stow.Vault

open Stow.Lib Stow.Lib.Contract Stow.Lib.Call

variable {W : Type}

/-- The entrypoints by which users change the state. -/
def Op.isUser : Op → Bool
  | .setup _ _ | .config _ | .delegatedDeposit _ _ _ | .delegatedWithdraw _ _ _
  | .insuranceFund _ _ | .rewardsFundPool _ _ | .rewardsClaim _ => false
  | _ => true

/-- Those of them that ask whether the vault is paused. -/
def Op.checksPause : Op → Bool
  | .deposit _ _
  | .groupCreate _ _ | .groupJoin _ _ | .groupContribute _ _ _ | .groupClose _ _
  | .groupPayoutEqual _ _ | .groupSetShares _ _ _ | .groupSettle _ _
  | .groupSetVotingPeriod _ _ _ | .groupPropose _ _ _ _ | .groupVote _ _ _ | .groupExecute _ _
  | .interestDeposit _ _ | .interestWithdraw _ _ | .interestClaim _ => true
  | _ => false

variable {H : Host W} {ctx : Ctx} {s : Sys W}

/-! ### Entrypoints that ask -/

/-- Between calls, an entrypoint that asks right after its first guard stops there. -/
theorem stops_paused {β : Type} {g : Unit → Action W β}
    (hi : s.store.tokenTransferActive = false) (hp : s.store.paused = true) :
    (extendInstanceTtl >>= fun _ => requireNotPaused >>= g) s = .error (.err .paused) := by
  have hf : extendInstanceTtl s = .ok ((), s) := extendInstanceTtl_ok.mpr ⟨hi, rfl⟩
  have ha : requireNotPaused s = .error (.err .paused) :=
    require_error (fun h => Bool.false_ne_true (h.symm.trans hp))
  exact (bind_of_ok hf).trans (bind_of_error ha)

theorem exec_paused {op : Op} (hop : op.checksPause = true)
    (hi : s.store.tokenTransferActive = false) (hp : s.store.paused = true) :
    op.exec H ctx s = .error (.err .paused) := by
  cases op with
  | groupCreate | groupPropose | groupExecute | interestClaim =>
    exact void_error.mpr (stops_paused hi hp)
  | deposit | groupJoin | groupContribute | groupClose | groupPayoutEqual | groupSetShares
  | groupSettle | groupSetVotingPeriod | groupVote | interestDeposit | interestWithdraw =>
    exact stops_paused hi hp
  | _ => simp [Op.checksPause] at hop

/-! ### Entrypoints that do not -/

theorem moveTokens_unpaused (source target : Address) (amount : Int) :
    Avoids (.err .paused) (moveTokens H source target amount) := by
  refine avoids_bind (avoids_require _ (by decide)) fun _ => ?_
  refine avoids_bind (avoids_load _) fun _ => ?_
  refine avoids_bind (avoids_orFail _ (by decide)) fun _ => ?_
  refine avoids_bind ?_ fun _ => ?_
  · refine avoids_bind (avoids_load _) fun _ => ?_
    exact avoids_bind (avoids_require _ (by decide)) fun _ => avoids_save _
  · exact avoids_bind (avoids_lift _ (by decide)) fun _ => avoids_save _

theorem payEach_unpaused (event : Address → Int → Event) (payments : List (Address × Int)) :
    Avoids (.err .paused) (payEach H event payments) := by
  induction payments with
  | nil => exact avoids_pure ()
  | cons p rest ih =>
    refine avoids_ite _ ih (avoids_bind (moveTokens_unpaused _ _ _) fun _ => ?_)
    exact avoids_bind (avoids_publish _) fun _ => ih

theorem exec_unpaused {op : Op} (hu : op.isUser = true) (hop : op.checksPause = false) :
    Avoids (.err .paused) (op.exec H ctx) := by
  cases op with
  | withdraw | lockedCreate | lockedTopUp | lockedWithdraw | lockedEarlyWithdraw
  | lockedEmergencyWithdraw | goalCreate | goalContribute | goalClaim | goalSetAutoRenew
  | insuranceRedeemClaim =>
    simp only [Op.exec, withdraw, lockedCreate, lockedTopUp, lockedWithdraw, lockedEarlyWithdraw,
      lockedEmergencyWithdraw, goalCreate, goalContribute, goalClaim, goalSetAutoRenew,
      insuranceRedeemClaim, goalFinish, payPenalty, payPositive, extendInstanceTtl, requireAuth,
      transferIn, transferOut, nextLockedId, nextGoalId, nextId, Call.void]
    repeat' with_reducible first
      | refine avoids_bind ?_ fun _ => ?_
      | exact avoids_load _
      | refine avoids_require _ ?_
      | refine avoids_orFail _ ?_
      | refine avoids_orTrap _ ?_
      | refine avoids_requireSigned _ _ _ ?_
      | exact avoids_pure _
      | exact avoids_save _
      | exact avoids_publish _
      | exact moveTokens_unpaused _ _ _
      | exact payEach_unpaused _ _
      | refine avoids_ite _ ?_ ?_
    all_goals decide
  | _ => simp [Op.isUser, Op.checksPause] at hu hop

/-! ### Every run -/

theorem step_idle (self : Address) (s : Sys World) (e : Move)
    (hs : s.store.tokenTransferActive = false) :
    (step self s e).store.tokenTransferActive = false :=
  step_induction (I := fun s => s.store.tokenTransferActive = false) (P := fun _ _ => True)
    (fun _ _ _ _ _ _ _ hok => exec_clears (exact_inert self) hok) (fun _ _ _ _ hs => hs)
    s e hs trivial

/-- In a paused vault a user entrypoint is turned away as paused, and changes nothing, exactly
when it is one of those that ask. -/
theorem paused_iff (self : Address) (tokens : Ledger Address) (es : List Move) :
    AllStates (step self) (fun s => s.store.paused = true → ∀ ctx op, op.isUser = true →
      ((op.exec (exact self) ctx s = .error (.err .paused) ∧ step self s (.call ctx op) = s) ↔
        op.checksPause = true)) (.deployed tokens) es := by
  have hi : AllStates (step self) (fun s => s.store.tokenTransferActive = false)
      (.deployed tokens) es :=
    invariant_allStates (fun s e hs _ => step_idle self s e hs) rfl (AllSteps.trivial es)
  refine hi.mono ?_
  intro s hs hp ctx op hu
  constructor
  · intro ⟨he, _⟩
    cases hop : op.checksPause with
    | true => rfl
    | false => exact absurd he (exec_unpaused hu hop s)
  · intro hop
    have he : op.exec (exact self) ctx s = .error (.err .paused) := exec_paused hop hs hp
    exact ⟨he, by simp only [step, Call.after, he]⟩

/-- A vault that its admin has paused. -/
def pausedVault : Sys World := runFrom (step 0) (.deployed purse)
  [.call ⟨10, 1, [1]⟩ (.setup 1 9), .call ⟨20, 2, [1]⟩ (.config (.setPaused 1 true))]

/-- A paused vault still opens a locked plan and takes the tokens for it. -/
theorem pausedVault_locks : pausedVault.store.paused = true ∧
    (step 0 pausedVault (.call ⟨30, 3, [2]⟩ (.lockedCreate 2 500 90))).store.locked.get 1 =
      some ⟨1, 2, 500, 90, 30⟩ ∧
    (step 0 pausedVault (.call ⟨30, 3, [2]⟩ (.lockedCreate 2 500 90))).world.held 0 = 500 := by
  decide +kernel

end Stow.Vault
