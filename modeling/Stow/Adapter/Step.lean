import Stow.Lib.Machine
import Stow.Adapter.Harvest

/-! The adapter as a machine: every entrypoint, called in any order, with any world between. -/
namespace Stow.Adapter

open Stow.Lib Stow.Lib.Contract

/-- The entrypoints that can change the adapter. -/
inductive Op where
  | initializeAdapter (admin treasury token : Address)
  | setAdmin (newAdmin : Address)
  | setTreasury (caller newTreasury : Address)
  | setPerformanceFeeBps (caller : Address) (bps : Nat)
  | setHarvestInterval (caller : Address) (seconds : Nat)
  | setPaused (caller : Address) (paused : Bool)
  | setWithdrawCooldown (caller : Address) (seconds : Nat)
  | upgrade (caller : Address) (newWasmHash : Nat)
  | registerStrategy (caller address : Address) (name : String)
  | deregisterStrategy (caller : Address) (strategyId : Nat)
  | setActiveStrategy (caller : Address) (strategyId : Nat)
  | migrateStrategy (caller : Address) (newStrategyId : Nat)
  | setStrategyDepositCap (caller : Address) (strategyId : Nat) (cap : Int)
  | deposit (source : Address) (amount : Int)
  | batchDeposit (sources : List Address) (amounts : List Int)
  | requestWithdraw (owner : Address) (shares : Int)
  | claimWithdraw (owner : Address) (requestId : Nat)
  | cancelWithdraw (owner : Address) (requestId : Nat)
  | harvest (caller : Address)
  | withdrawFees (caller : Address)
  | emergencyWithdrawAll (caller : Address)
  deriving Repr, DecidableEq

variable {W E : Type} (H : Host W) (outside : E → W → W)

def exec (ctx : Ctx) : Op → Action W Unit
  | .initializeAdapter admin treasury token => initializeAdapter ctx admin treasury token
  | .setAdmin newAdmin => setAdmin H ctx newAdmin
  | .setTreasury caller newTreasury => setTreasury H ctx caller newTreasury
  | .setPerformanceFeeBps caller bps => setPerformanceFeeBps H ctx caller bps
  | .setHarvestInterval caller seconds => setHarvestInterval H ctx caller seconds
  | .setPaused caller paused => setPaused H ctx caller paused
  | .setWithdrawCooldown caller seconds => setWithdrawCooldown ctx caller seconds
  | .upgrade caller newWasmHash => upgrade H ctx caller newWasmHash
  | .registerStrategy caller address name => (registerStrategy H ctx caller address name).void
  | .deregisterStrategy caller strategyId => deregisterStrategy H ctx caller strategyId
  | .setActiveStrategy caller strategyId => setActiveStrategy H ctx caller strategyId
  | .migrateStrategy caller newStrategyId => migrateStrategy H ctx caller newStrategyId
  | .setStrategyDepositCap caller strategyId cap =>
    setStrategyDepositCap H ctx caller strategyId cap
  | .deposit source amount => (deposit H ctx source amount).void
  | .batchDeposit sources amounts => (batchDeposit H ctx sources amounts).void
  | .requestWithdraw owner shares => (requestWithdraw H ctx owner shares).void
  | .claimWithdraw owner requestId => (claimWithdraw H ctx owner requestId).void
  | .cancelWithdraw owner requestId => cancelWithdraw H ctx owner requestId
  | .harvest caller => (harvest H ctx caller).void
  | .withdrawFees caller => (withdrawFees H ctx caller).void
  | .emergencyWithdrawAll caller => (emergencyWithdrawAll H ctx caller).void

/-- A call of the adapter, or an event of the world that no call of the adapter makes. -/
inductive Move (E : Type) where
  | call (ctx : Ctx) (op : Op)
  | world (e : E)

/-- A call that fails leaves everything as it was. -/
def step (s : Sys W) : Move E → Sys W
  | .call ctx op => (exec H ctx op).after s
  | .world e => { s with world := outside e s.world }

/-- The state after a run from a fresh deployment. -/
def run (w : W) (moves : List (Move E)) : Sys W :=
  runFrom (step H outside) ⟨.deployed, [], w⟩ moves

variable {H outside}

/-- A property kept by every successful call and by the world is kept by a step. -/
theorem step_induction {I : Sys W → Prop} {s : Sys W} (hs : I s)
    (hc : ∀ ctx op t, exec H ctx op s = .ok ((), t) → I t)
    (hw : ∀ e, I { s with world := outside e s.world }) (m : Move E) :
    I (step H outside s m) := by
  cases m with
  | world e => exact hw e
  | call ctx op => exact Call.after_induction hs (fun _ t => hc ctx op t)

end Stow.Adapter
