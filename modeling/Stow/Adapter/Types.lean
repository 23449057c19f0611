import Stow.Lib.SortedMap
import Stow.Lib.Contract

/-! The records of the yield adapter, its storage, and the contracts it calls. -/
namespace Stow.Adapter

open Stow.Lib Stow.Lib.Contract

abbrev Address := Nat

/-- The error codes a call can return. -/
inductive Error where
  | alreadyInitialized | notInitialized | unauthorized | invalidAmount | notFound
  | insufficientBalance | overflow | paused | strategyNotFound | strategyAlreadyRegistered
  | strategyActive | strategyAlreadyActive | strategyCapExceeded | cooldownNotElapsed
  | withdrawAlreadyResolved | feeTooHigh | noFeesAccrued | harvestTooSoon | strategyCallFailed
  | emptyBatch | batchTooLarge
  deriving Repr, DecidableEq

structure StrategyInfo where
  id : Nat
  address : Address
  name : String
  depositCap : Int
  registeredAt : Nat
  deregisteredAt : Option Nat
  deriving Repr, DecidableEq

structure Position where
  owner : Address
  shares : Int
  createdAt : Nat
  updatedAt : Nat
  deriving Repr, DecidableEq

structure WithdrawRequest where
  id : Nat
  owner : Address
  shares : Int
  assets : Int
  claimableAt : Nat
  requestedAt : Nat
  claimedAt : Option Nat
  cancelledAt : Option Nat
  deriving Repr, DecidableEq

/-- Neither claimed nor cancelled. -/
def WithdrawRequest.pending (r : WithdrawRequest) : Bool :=
  r.claimedAt.isNone && r.cancelledAt.isNone

/-- The events the adapter publishes, with their data tuples. -/
inductive Event where
  | init (admin treasury token : Address) (schemaVersion timestamp : Nat)
  | adminSet (previousAdmin newAdmin : Address) (timestamp : Nat)
  | pausedChanged (caller : Address) (paused : Bool) (timestamp : Nat)
  | upgraded (caller : Address) (newWasmHash timestamp : Nat)
  | deposited (owner : Address) (assets sharesMinted positionShares : Int) (timestamp : Nat)
  | withdrawRequested (requestId : Nat) (owner : Address) (sharesBurned assets : Int)
      (claimableAt timestamp : Nat)
  | withdrawClaimed (requestId : Nat) (owner : Address) (assets : Int) (timestamp : Nat)
  | withdrawCancelled (requestId : Nat) (owner : Address) (assets sharesReminted : Int)
      (timestamp : Nat)
  | strategyRegistered (strategyId : Nat) (address : Address) (name : String) (timestamp : Nat)
  | strategyChanged (source target : Option Nat) (assetsMoved : Int) (timestamp : Nat)
  | strategyDeregistered (strategyId timestamp : Nat)
  | harvested (caller : Address) (delta feeTaken : Int) (timestamp : Nat)
  | feeCollected (caller : Address) (accrued : Int) (timestamp : Nat)
  deriving Repr, DecidableEq

def eventSchemaVersion : Nat := 1

/-- The adapter's storage. A key whose absence reads as a default holds that default. -/
structure Store where
  admin : Option Address
  treasury : Option Address
  token : Option Address
  paused : Bool
  performanceFeeBps : Nat
  harvestInterval : Nat
  lastHarvestAt : Option Nat
  withdrawCooldown : Nat
  activeStrategy : Option Nat
  nextStrategyId : Nat
  nextWithdrawId : Nat
  totalShares : Int
  deployedBalance : Int
  feesAccrued : Int
  reservedWithdrawAssets : Int
  strategies : SortedMap Nat StrategyInfo
  positions : SortedMap Address Position
  withdrawRequests : SortedMap Nat WithdrawRequest

/-- The storage of a contract that was deployed and never called. -/
def Store.deployed : Store where
  admin := none
  treasury := none
  token := none
  paused := false
  performanceFeeBps := 0
  harvestInterval := 0
  lastHarvestAt := none
  withdrawCooldown := 0
  activeStrategy := none
  nextStrategyId := 0
  nextWithdrawId := 0
  totalShares := 0
  deployedBalance := 0
  feesAccrued := 0
  reservedWithdrawAssets := 0
  strategies := .empty
  positions := .empty
  withdrawRequests := .empty

def Store.setTotalShares (st : Store) (shares : Int) : Store := { st with totalShares := shares }

def Store.setReserved (st : Store) (assets : Int) : Store :=
  { st with reservedWithdrawAssets := assets }

def Store.setFees (st : Store) (fees : Int) : Store := { st with feesAccrued := fees }

def Store.setNextWithdrawId (st : Store) (id : Nat) : Store := { st with nextWithdrawId := id }

def Store.setNextStrategyId (st : Store) (id : Nat) : Store := { st with nextStrategyId := id }

def Store.setActive (st : Store) (id : Option Nat) : Store := { st with activeStrategy := id }

/-- What the adapter reaches outside itself: the token and the strategies, as operations on a
world `W`. A missing answer is a failed call, and the callee's writes are gone with it. -/
structure Host (W : Type) where
  self : Address
  tokenBalance : (token holder : Address) → W → Option (Int × W)
  tokenTransfer : (token source target : Address) → Int → W → Option W
  strategyBalance : (strategy : Address) → W → Option (Int × W)
  strategyDeposit : (token strategy : Address) → Int → W → Option W
  strategyWithdraw : (strategy : Address) → Int → W → Option W
  updateWasm : Nat → W → Option W

/-- The ledger time of a call and the addresses that signed it. -/
structure Ctx where
  now : Nat
  auths : List Address

/-- The adapter's storage and published events, and the world around it. -/
abbrev Sys (W : Type) := Contract.State Store Event W

/-- A call of the adapter over the world `W`. -/
abbrev Action (W α : Type) := Call Error (Sys W) α

variable {W β : Type}

def requireAuth (H : Host W) (ctx : Ctx) (a : Address) : Action W Unit :=
  Contract.requireSigned H.self ctx.auths a

theorem bind_requireAuth {H : Host W} {ctx : Ctx} {a : Address} {g : Unit → Action W β}
    {s t : Sys W} {b : β} :
    (requireAuth H ctx a >>= g) s = .ok (b, t) ↔
      (a ∈ ctx.auths ∧ a ≠ H.self) ∧ g () s = .ok (b, t) :=
  Contract.bind_requireSigned

end Stow.Adapter
