import Stow.Projection.Service

/-! What the indexer does with one event of either contract. -/
namespace Stow.Indexer

open Stow.Lib Stow.Projection Async
open Stow.Lib.Async (saveRow orThrow)

inductive PendingWithdrawalStatus where
  | pending | claimed | cancelled
  deriving Repr, DecidableEq

/-- A row of `pending_withdrawals`. -/
structure PendingWithdrawal where
  owner : Text
  shares : Text
  claimableAt : Int
  status : PendingWithdrawalStatus
  deriving Repr, DecidableEq

structure HarvestHistory where
  delta : Text
  fee : Text
  harvestedAt : Int
  ledger : Nat
  txHash : Option String
  deriving Repr, DecidableEq

/-- The tables that events of the two contracts are applied to. The withdrawals are kept by the id
of the request, which is unique. -/
structure Views where
  models : ReadModels
  withdrawals : Text → Option PendingWithdrawal
  harvests : List HarvestHistory

def Views.empty : Views := ⟨.empty, fun _ => none, []⟩

def Views.setModels (m : ReadModels) (v : Views) : Views := { v with models := m }

def Views.putWithdrawal (v : Views) (requestId : Text) (row : PendingWithdrawal) : Views :=
  { v with withdrawals := Function.update v.withdrawals requestId (some row) }

/-- Marks the row, if there is one. -/
def Views.cancel (v : Views) (requestId : Text) : Views :=
  { v with
    withdrawals := Function.update v.withdrawals requestId
      ((v.withdrawals requestId).map fun row => { row with status := .cancelled }) }

def requestIdOf (data : Payload) : Text := ((data.get "id").orElse (data.get "request_id")).toText

def applyWithdrawRequested (data : Payload) : Async Views Unit := do
  let requestId := requestIdOf data
  let existing ← read (·.withdrawals requestId)
  if existing.isSome then pure ()
  else do
    let claimableAt ← orThrow (toDate (data.get "claimable_at"))
    saveRow existing (·.withdrawals requestId) (·.putWithdrawal requestId
      ⟨(data.get "owner").toText, (data.get "shares").toText, claimableAt, .pending⟩)

def applyWithdrawCancelled (data : Payload) : Async Views Unit :=
  write (·.cancel (requestIdOf data))

/-- What is there but no amount throws. -/
def stringifyStroops (value : Value) (fallback : Option Text) : Option Text :=
  match value with
  | .undefined | .null => fallback
  | .number n => some (.num n)
  | .text t => some t
  | .bool _ => none

def applyHarvested (data : Payload) (ledger : Nat) (txHash : Option String) : Async Views Unit := do
  let delta ← orThrow (stringifyStroops (data.get "delta") none)
  let fee ← orThrow (stringifyStroops (data.get "fee") (some (.num 0)))
  let harvestedAt ← orThrow (toDate (data.get "timestamp"))
  let row := ⟨delta, fee, harvestedAt, ledger, txHash⟩
  write (fun v => { v with harvests := v.harvests ++ [row] })

/-- The id of a withdrawal under any of the names it goes by. -/
def extractWithdrawalId (data : Payload) : Option Text :=
  match ((((data.get "withdrawal_id").orElse (data.get "withdrawalId")).orElse
      (data.get "id")).orElse (data.get "request_id")).orElse (data.get "requestId") with
  | .undefined | .null => none
  | candidate => some candidate.toText

/-- The withdrawals that the process waits for, in memory. -/
abbrev Waiting := Text → Option Payload

def registerPendingWithdrawal (withdrawalId : Text) (record : Payload) (waiting : Waiting) :
    Waiting :=
  Function.update waiting withdrawalId (some record)

def decodeWithdrawClaimed (data : Payload) (waiting : Waiting) : Waiting :=
  match extractWithdrawalId data with
  | none => waiting
  | some withdrawalId => Function.update waiting withdrawalId none

/-- What the event does to the tables. A claim does nothing to them: `decodeWithdrawClaimed` only
changes what is kept in memory. -/
def decodeAndApply (topic : Topic) (data : Payload) (ledger : Nat) (txHash : Option String) :
    Async Views Unit :=
  match topic with
  | .withdrawClaimed => pure ()
  | .withdrawRequested => applyWithdrawRequested data
  | .withdrawCancelled => applyWithdrawCancelled data
  | .harvested => applyHarvested data ledger txHash
  | topic => (apply topic data).zoom Views.models Views.setModels

/-- The adapter's topics that are not passed on to the read-models. -/
def handledHere : Topic → Bool
  | .withdrawClaimed | .withdrawRequested | .withdrawCancelled | .harvested => true
  | _ => false

/-! ### What an event leaves alone, whatever is rejected -/

variable {topic : Topic} {data : Payload} {ledger : Nat} {txHash : Option String}
  {faults : List Bool} {v : Views}

/-- The other topics do to the read-models what the projection does. -/
theorem exec_decodeAndApply (h : handledHere topic = false) :
    (decodeAndApply topic data ledger txHash).exec faults v =
      (v.setModels ((apply topic data).exec faults v.models).1,
        ((apply topic data).exec faults v.models).2) := by
  have hz : decodeAndApply topic data ledger txHash =
      (apply topic data).zoom Views.models Views.setModels := by
    cases topic <;> first | rfl | cases h
  have hg : ∀ (m : ReadModels) (v : Views), (v.setModels m).models = m := fun _ _ => rfl
  rw [hz]
  exact exec_zoom hg (fun _ _ _ => rfl) (fun _ => rfl) _ _ _

theorem writes_applyWithdrawRequested {R : Views → Views → Prop} (hr : ∀ v, R v v)
    (hp : ∀ v row, R v (v.putWithdrawal (requestIdOf data) row)) :
    (applyWithdrawRequested data).Writes R := by
  refine (writes_read hr _).bind fun existing => ?_
  split_ifs
  · trivial
  · refine (writes_orThrow _).bind fun claimableAt => ?_
    exact writes_saveRow hr _ _ fun v => hp v _

theorem writes_applyHarvested {R : Views → Views → Prop}
    (ha : ∀ v row, R v { v with harvests := v.harvests ++ [row] }) :
    (applyHarvested data ledger txHash).Writes R := by
  refine (writes_orThrow _).bind fun delta => ?_
  refine (writes_orThrow _).bind fun fee => ?_
  refine (writes_orThrow _).bind fun harvestedAt => ?_
  exact writes_write fun v => ha v _

/-- What is handled here does not reach the read-models. -/
theorem decodeAndApply_models (h : handledHere topic = true) :
    ((decodeAndApply topic data ledger txHash).exec faults v).1.models = v.models := by
  have hw : (decodeAndApply topic data ledger txHash).Writes
      fun v v' => v'.models = v.models := by
    cases topic with
    | withdrawClaimed => trivial
    | withdrawRequested => exact writes_applyWithdrawRequested (fun _ => rfl) (fun _ _ => rfl)
    | withdrawCancelled => exact writes_write fun _ => rfl
    | harvested => exact writes_applyHarvested fun _ _ => rfl
    | _ => cases h
  exact hw.exec_eq

theorem decodeAndApply_withdrawals (hr : topic ≠ .withdrawRequested)
    (hc : topic ≠ .withdrawCancelled) :
    ((decodeAndApply topic data ledger txHash).exec faults v).1.withdrawals = v.withdrawals := by
  cases hh : handledHere topic with
  | false => rw [exec_decodeAndApply hh]; rfl
  | true =>
    have hw : (decodeAndApply topic data ledger txHash).Writes
        fun v v' => v'.withdrawals = v.withdrawals := by
      cases topic with
      | withdrawClaimed => trivial
      | withdrawRequested => exact absurd rfl hr
      | withdrawCancelled => exact absurd rfl hc
      | harvested => exact writes_applyHarvested fun _ _ => rfl
      | _ => cases hh
    exact hw.exec_eq

/-! ### What a request does when nothing is rejected -/

theorem run_applyWithdrawRequested_of_some {row : PendingWithdrawal}
    (h : v.withdrawals (requestIdOf data) = some row) :
    (applyWithdrawRequested data).run v = (v, some ()) := by
  unfold applyWithdrawRequested
  rw [run_bind_of_some (run_read _ v), h]
  rfl

theorem run_applyWithdrawRequested_of_none {claimableAt : Int}
    (h : v.withdrawals (requestIdOf data) = none)
    (hd : toDate (data.get "claimable_at") = some claimableAt) :
    (applyWithdrawRequested data).run v =
      (v.putWithdrawal (requestIdOf data)
        ⟨(data.get "owner").toText, (data.get "shares").toText, claimableAt, .pending⟩,
        some ()) := by
  unfold applyWithdrawRequested
  rw [run_bind_of_some (run_read _ v)]
  simp only [h, hd, Option.isSome_none, Bool.false_eq_true, if_false,
    bind_orThrow_some]
  exact run_saveRow h.symm

/-- Without a valid time there is no row. -/
theorem run_applyWithdrawRequested_of_invalid (h : v.withdrawals (requestIdOf data) = none)
    (hd : toDate (data.get "claimable_at") = none) :
    (applyWithdrawRequested data).run v = (v, none) := by
  unfold applyWithdrawRequested
  rw [run_bind_of_some (run_read _ v), h, hd]
  rfl

end Stow.Indexer
