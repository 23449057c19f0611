import Stow.Lib.Preserve
import Stow.Adapter.Totals

/-! The strategy registry as a part of the storage, and which calls write it, the withdrawal queue,
or what the performance fee is worked out from. -/
namespace Stow.Adapter

open Stow.Lib Stow.Lib.Contract Stow.Lib.Call

/-- The strategies, the id last given out, and the active one. -/
structure Registry where
  next : Nat
  active : Option Nat
  strategies : SortedMap Nat StrategyInfo

def Store.registry (st : Store) : Registry := ⟨st.nextStrategyId, st.activeStrategy, st.strategies⟩

def Op.writesRegistry : Op → Bool
  | .initializeAdapter .. | .registerStrategy .. | .deregisterStrategy .. | .setActiveStrategy ..
  | .migrateStrategy .. | .setStrategyDepositCap .. | .emergencyWithdrawAll .. => true
  | _ => false

def Op.writesQueue : Op → Bool
  | .requestWithdraw .. | .claimWithdraw .. | .cancelWithdraw .. => true
  | _ => false

/-- The rate of the fee, or the balance that the next harvest is measured against. -/
def Op.writesCheckpoint : Op → Bool
  | .setPerformanceFeeBps .. | .migrateStrategy .. | .harvest .. => true
  | _ => false

/-- What the operation does not write is as it was. -/
structure Op.Frame (op : Op) (st st' : Store) : Prop where
  registry : op.writesRegistry = false → st'.registry = st.registry
  queue : op.writesQueue = false → st'.withdrawRequests = st.withdrawRequests
  checkpoint : op.writesCheckpoint = false →
    st'.deployedBalance = st.deployedBalance ∧ st'.performanceFeeBps = st.performanceFeeBps

/-- The shares of an owner after an event, by what the event tells. -/
def Event.sharesAfter (i : Address) (shares : Int) : Event → Int
  | .deposited owner _ _ positionShares _ => if owner = i then positionShares else shares
  | .withdrawRequested _ owner sharesBurned _ _ _ =>
    if owner = i then shares - sharesBurned else shares
  | .withdrawCancelled _ owner _ sharesReminted _ =>
    if owner = i then shares + sharesReminted else shares
  | _ => shares

def Op.publishes : Op → Event → Bool
  | .initializeAdapter .., .init .. | .setAdmin .., .adminSet .. | .setPaused .., .pausedChanged ..
  | .upgrade .., .upgraded .. | .registerStrategy .., .strategyRegistered ..
  | .deregisterStrategy .., .strategyDeregistered ..
  | .setActiveStrategy .., .strategyChanged .. | .migrateStrategy .., .strategyChanged ..
  | .emergencyWithdrawAll .., .strategyChanged .. | .deposit .., .deposited ..
  | .batchDeposit .., .deposited .. | .requestWithdraw .., .withdrawRequested ..
  | .harvest .., .harvested .. | .withdrawFees .., .feeCollected .. => true
  | .claimWithdraw _ requestId, .withdrawClaimed id .. => id = requestId
  | .cancelWithdraw _ requestId, .withdrawCancelled id .. => id = requestId
  | _, _ => false

/-- The calls that rewrite one position. -/
def Op.repositions : Op → Bool
  | .deposit .. | .requestWithdraw .. | .cancelWithdraw .. => true
  | _ => false

variable {W : Type} {H : Host W} {ctx : Ctx} {s t : Sys W} {op : Op}

theorem Op.Frame.refl (st : Store) : op.Frame st st :=
  ⟨fun _ => rfl, fun _ => rfl, fun _ => ⟨rfl, rfl⟩⟩

theorem Op.Frame.trans {a b c : Store} (hab : op.Frame a b) (hbc : op.Frame b c) :
    op.Frame a c where
  registry h := (hbc.registry h).trans (hab.registry h)
  queue h := (hbc.queue h).trans (hab.queue h)
  checkpoint h :=
    ⟨(hbc.checkpoint h).1.trans (hab.checkpoint h).1,
      (hbc.checkpoint h).2.trans (hab.checkpoint h).2⟩

/-- The write is one of this call's, and none to the positions. -/
def Op.Permits (op : Op) (f : Store → Store) : Prop :=
  ∀ st, op.Frame st (f st) ∧ (f st).positions = st.positions

/-- The other calls keep what the world cannot change, and what writes beside the positions, their
own events and minting for a batch keep. -/
theorem exec_preserves {P : Sys W → Prop} (hop : op.repositions = false)
    (hq : ∀ {s t}, Quiet s t → P s → P t)
    (hsv : ∀ f : Store → Store, op.Permits f → Preserves P (save f : Action W Unit))
    (hp : ∀ e : Event, op.publishes e = true → (∀ i x, e.sharesAfter i x = x) →
      Preserves P (publish e : Action W Unit))
    (hm : ∀ items total, (∀ owner assets minted shares time,
      op.publishes (.deposited owner assets minted shares time) = true) →
      Preserves P (mintBatch H ctx items total)) : Preserves P (exec H ctx op) := by
  have quiet {α : Type} {x : Action W α} (hx : ∀ {s a t}, x s = .ok (a, t) → Quiet s t) :
      Preserves P x := fun _ _ _ hs h => hq (hx h) hs
  have hw (f : W → Option W) : Preserves P (perform f .trap : Action W Unit) :=
    preserves_perform fun _ _ => hq ⟨rfl, rfl⟩
  cases op with
  | deposit | requestWithdraw | cancelWithdraw => cases hop
  | setWithdrawCooldown caller seconds =>
    intro s u t _ h
    cases h
  | _ =>
    simp only [exec, initializeAdapter, setAdmin, setTreasury, setPerformanceFeeBps,
      setHarvestInterval, setPaused, upgrade, registerStrategy, deregisterStrategy,
      setActiveStrategy, migrateStrategy, setStrategyDepositCap, batchDeposit, claimWithdraw,
      harvest, withdrawFees, emergencyWithdrawAll, validateFeeBps, requireAdmin, requireAuth,
      requireNotPaused, loadPendingRequest, getWithdrawRequest, releaseReserved, getStrategy,
      nextStrategyId, checkHarvestInterval, takeFee, applyPerformanceFee, creditFee, Call.void]
    repeat' with_reducible first
      | refine preserves_bind ?_ fun _ => ?_
      | exact preserves_require _ _
      | exact preserves_load _
      | exact preserves_orFail _ _
      | exact preserves_orTrap _
      | exact preserves_pure _
      | exact preserves_requireSigned _ _ _
      | exact hw _
      | refine hsv _ ?_
      | refine hp _ ?_ fun _ _ => rfl
      | exact preserves_of_eq fun h => (authAll_ok.mp h).2
      | exact preserves_of_eq checkDepositCap_ok
      | exact hm _ _ fun _ _ _ _ _ => rfl
      | exact quiet withdrawDeployed_quiet
      | exact quiet redeploy_quiet
      | exact quiet coverShortfall_quiet
      | exact quiet transferOut_quiet
      | exact quiet cappedBalance_quiet
      | exact quiet forward_quiet
      | exact quiet fun h => (priceBatch_quiet h).1
      | exact quiet fun h => (strategyBalance_quiet h).1
      | refine preserves_ite _ ?_ ?_
    all_goals first
      | rfl
      | exact decide_eq_true (Eq.refl _)
      | refine fun _ => ⟨?_, rfl⟩
        constructor <;> first
          | exact (absurd · Bool.false_ne_true.symm)
          | exact fun _ => rfl
          | exact fun _ => ⟨rfl, rfl⟩

theorem exec_frame (h : exec H ctx op s = .ok ((), t)) : op.Frame s.store t.store := by
  cases op with
  | deposit source amount =>
    obtain ⟨shares, h⟩ := of_void h
    obtain ⟨-, -, -, -, -, -, _, _, _, _, _, -, -, -, -, -, rfl⟩ := deposit_ok.mp h
    exact ⟨fun _ => rfl, fun _ => rfl, fun _ => ⟨rfl, rfl⟩⟩
  | batchDeposit sources amounts =>
    obtain ⟨shares, h⟩ := of_void h
    exact (batchDeposit_writes h).2.2 ▸ ⟨fun _ => rfl, fun _ => rfl, fun _ => ⟨rfl, rfl⟩⟩
  | requestWithdraw owner shares =>
    obtain ⟨id, h⟩ := of_void h
    obtain ⟨-, -, -, -, -, -, _, _, _, -, -, -, -, -, -, -, rfl⟩ := requestWithdraw_ok.mp h
    exact ⟨fun _ => rfl, (absurd · Bool.false_ne_true.symm), fun _ => ⟨rfl, rfl⟩⟩
  | cancelWithdraw owner requestId =>
    obtain ⟨-, _, _, _, -, -, -, -, -, -, -, -, rfl⟩ := cancelWithdraw_ok.mp h
    exact ⟨fun _ => rfl, (absurd · Bool.false_ne_true.symm), fun _ => ⟨rfl, rfl⟩⟩
  | _ =>
    have hp (op : Op) (hop : op.repositions = false)
        (hn : op.publishes (.deposited 0 0 0 0 0) = false) :
        Preserves (fun v => op.Frame s.store v.store) (exec H ctx op) := by
      refine exec_preserves hop (fun hq hv => hq.1 ▸ hv)
        (fun f hf => preserves_save fun v hv => hv.trans (hf v.store).1)
        (fun _ _ _ => preserves_publish fun _ hv => hv) fun _ _ hm => ?_
      exact absurd ((hm 0 0 0 0 0).symm.trans hn) Bool.false_ne_true.symm
    exact hp _ rfl rfl s () t (.refl _) h

end Stow.Adapter
