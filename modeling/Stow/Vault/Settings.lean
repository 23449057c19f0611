import Stow.Vault.Frame

/-! What only configuration calls write, whatever the token does that cannot write the storage. -/
namespace Stow.Vault

open Stow.Lib Stow.Lib.Contract Stow.Lib.Call

variable {W : Type}

/-- Every installation of new code, in order: each publishes its event. -/
def Sys.installs (s : Sys W) : List Nat := s.log.filterMap Event.installed

/-- The settings are `c`, and the code was replaced as `codes` says. -/
def Sys.Configured (c : Settings) (codes : List Nat) (s : Sys W) : Prop :=
  s.store.settings = c ∧ s.installs = codes

/-- While a transfer is going on, the host leaves the storage and the log of the vault alone. -/
def Host.Inert (H : Host W) : Prop :=
  ∀ token source target amount (s t : Sys W), s.store.tokenTransferActive = true →
    H.transfer token source target amount s = some t → t.store = s.store ∧ t.log = s.log

theorem exact_inert (self : Address) : (exact self).Inert := by
  intro token source target amount s t _ h
  obtain ⟨w, -, rfl⟩ := Option.map_eq_some_iff.mp h
  exact ⟨rfl, rfl⟩

variable {H : Host W} {ctx : Ctx} {c : Settings} {codes : List Nat}

/-- The flag is set while the host has control and cleared after it. -/
theorem moveTokens_inert (hH : H.Inert) {source target : Address} {amount : Int} {s t : Sys W}
    {u : Unit} (h : moveTokens H source target amount s = .ok (u, t)) :
    t.store = s.store ∧ t.log = s.log := by
  simp only [moveTokens, bind_require, bind_load, bind_orFail] at h
  obtain ⟨-, token, -, h⟩ := h
  obtain ⟨_, s₁, hb, h⟩ := bind_ok.mp h
  obtain ⟨hi, rfl⟩ := beginTokenTransfer_ok.mp hb
  obtain ⟨_, s₂, hm, h⟩ := bind_ok.mp h
  simp only [lift_ok, Option.map_eq_some_iff, Prod.mk.injEq] at hm
  obtain ⟨_, hm, -, rfl⟩ := hm
  obtain ⟨hs, hl⟩ := hH token source target amount _ _ rfl hm
  obtain rfl := save_ok.mp h
  exact ⟨by rw [hs, Store.setTransferActive_self hi], hl⟩

/-- The calls that replace the code. -/
def ConfigOp.installs : ConfigOp → Bool
  | .upgrade _ _ | .executeUpgrade _ => true
  | _ => false

theorem config_preserves {P : Sys W → Prop} {op : ConfigOp}
    (hsv : ∀ f : Store → Store, Preserves P (save f : Action W Unit))
    (hpf : ∀ f : W → Option W, Preserves P (perform f .trap : Action W Unit))
    (hp : ∀ e : Event, e.reports = false → (op.installs = false → e.installed = none) →
      Preserves P (publish e : Action W Unit)) : Preserves P (op.exec H ctx) := by
  cases op <;>
    simp only [ConfigOp.exec, setAdmin, setPaused, setDepositCap, setMinDeposit,
      setEarlyWithdrawPenaltyBps, setPenaltyRecipient, setMinLockPeriod, upgrade, setEmergencyMode,
      setUpgradeDelay, proposeUpgrade, executeUpgrade, cancelUpgrade, migrate, setInterestRate,
      setInterestFrequency, setInsurancePremiumBps, setInsuranceMaxClaimBps, insuranceApproveClaim,
      delegateSavings, updateDelegation, revokeDelegation, rewardsSetConfig, rewardsPing,
      rewardsAccrue, accrueAccount, validateExpiry, extendInstanceTtl, requireNotPaused,
      requireAuth, requireAdminAuth, Call.void] <;>
    repeat' with_reducible first
      | refine preserves_bind ?_ fun _ => ?_
      | exact preserves_require _ _
      | exact preserves_load _
      | exact preserves_orFail _ _
      | exact preserves_orTrap _
      | exact preserves_pure _
      | exact preserves_requireSigned _ _ _
      | exact hsv _
      | exact hpf _
      | refine hp _ ?_ ?_
      | exact requireAdmin_preserves _
      | refine preserves_ite _ ?_ ?_
      | split
  all_goals first | rfl | exact fun _ => rfl | exact (absurd · Bool.false_ne_true.symm)

/-! ### What stays configured -/

theorem save_configured {f : Store → Store} (hf : ∀ st, (f st).settings = st.settings) :
    Preserves (Sys.Configured c codes) (save f : Action W Unit) := by
  apply preserves_save
  intro s hs
  exact ⟨(hf s.store).trans hs.1, hs.2⟩

theorem publish_configured {e : Event} (he : e.installed = none) :
    Preserves (Sys.Configured c codes) (publish e : Action W Unit) := by
  apply preserves_publish
  intro s hs
  refine ⟨hs.1, ?_⟩
  unfold Sys.installs
  rw [List.filterMap_append, List.filterMap_cons_none he, List.filterMap_nil, List.append_nil]
  exact hs.2

/-- Only the set-up and configuration calls write a setting or install code. -/
theorem exec_configured (hH : H.Inert) {op : Op} (hs : op.isSetup = false)
    (hc : ∀ cop, op ≠ .config cop) :
    Preserves (Sys.Configured c codes) (op.exec H ctx) := by
  refine exec_preserves (fun _ _ _ _ s u t hst h => ?_)
    (fun _ hf => save_configured fun st => (hf st).2)
    (fun _ he _ => publish_configured he) hs hc
  obtain ⟨hst', hl⟩ := moveTokens_inert hH h
  unfold Sys.Configured Sys.installs at hst ⊢
  rwa [hst', hl]

end Stow.Vault
