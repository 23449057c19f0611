import Mathlib.Algebra.BigOperators.Group.List.Basic
import Mathlib.Algebra.Ring.Int.Defs
import Stow.Projection.Service

/-! The service that records round-ups and deposits them in batches. -/
namespace Stow.Roundup

open Stow.Lib Stow.Projection
open Stow.Lib.Async (orThrow)

inductive RoundupFrequency where
  | immediate | daily | weekly | monthly | batch
  deriving Repr, DecidableEq

/-- What the calculator alone reads of a configuration is left to it. -/
structure RoundupConfig where
  id : Nat
  userId : Text
  frequency : RoundupFrequency
  minRoundupAmount : Int
  isActive : Bool
  isPaused : Bool
  deriving Repr, DecidableEq

inductive RoundupRecordStatus where
  | pending | processing | completed | failed | cancelled
  deriving Repr, DecidableEq

structure RoundupRecord where
  id : Nat
  userId : Text
  configId : Nat
  status : RoundupRecordStatus
  roundupAmount : Int
  batchId : Option Nat
  deriving Repr, DecidableEq

inductive RoundupBatchStatus where
  | pending | processing | completed | partially | failed | cancelled
  deriving Repr, DecidableEq

structure RoundupBatch where
  recordCount : Nat
  totalAmount : Int
  status : RoundupBatchStatus
  successfulCount : Nat
  deriving Repr, DecidableEq

/-- The ids of new rows count up. -/
structure RoundupDb where
  records : List RoundupRecord
  batches : List RoundupBatch
  models : ReadModels

def RoundupDb.setModels (m : ReadModels) (s : RoundupDb) : RoundupDb := { s with models := m }

def RoundupDb.insertRecord (s : RoundupDb) (userId : Text) (configId : Nat) (roundupAmount : Int) :
    RoundupDb :=
  { s with records :=
    s.records ++ [⟨s.records.length, userId, configId, .pending, roundupAmount, none⟩] }

def RoundupDb.updateRecord (s : RoundupDb) (id : Nat) (f : RoundupRecord → RoundupRecord) :
    RoundupDb :=
  { s with records := s.records.map fun r => if r.id = id then f r else r }

def RoundupDb.insertBatch (s : RoundupDb) (batch : RoundupBatch) : RoundupDb :=
  { s with batches := s.batches ++ [batch] }

def RoundupDb.saveBatch (s : RoundupDb) (id : Nat) (f : RoundupBatch → RoundupBatch) : RoundupDb :=
  { s with batches := s.batches.modify id f }

/-- The records of the configuration that wait. -/
def RoundupDb.pending (s : RoundupDb) (configId : Nat) : List RoundupRecord :=
  s.records.filter fun r => r.configId = configId ∧ r.status = .pending

abbrev Call := Async RoundupDb

def totalOf (records : List RoundupRecord) : Int := (records.map (·.roundupAmount)).sum

/-! ### A batch -/

def markProcessing (batchId : Nat) (r : RoundupRecord) (s : RoundupDb) : RoundupDb :=
  s.updateRecord r.id fun r => { r with batchId := some batchId, status := .processing }

def markCompleted (r : RoundupRecord) (s : RoundupDb) : RoundupDb :=
  s.updateRecord r.id fun r => { r with status := .completed }

def markFailed (r : RoundupRecord) (s : RoundupDb) : RoundupDb :=
  s.updateRecord r.id fun r => { r with status := .failed }

def creditUser (userId : Text) (amount : Int) : Call Unit :=
  (credit userId (.num amount)).zoom RoundupDb.models RoundupDb.setModels

def simulateDepositSuccess (records : List RoundupRecord) : Call Unit := do
  Async.all (records.map markCompleted)
  match records with
  | [] => .failed
  | first :: _ => creditUser first.userId (totalOf records)

/-- What throws in the deposit fails the batch. -/
def settleBatch (records : List RoundupRecord) (batchId : Nat) (deposit : Call Unit) :
    Call Unit := do
  let status ← (do deposit; pure RoundupBatchStatus.completed).catching
    (do Async.all (records.map markFailed); pure .failed)
  Async.write (·.saveBatch batchId fun batch => { batch with
    status := status
    successfulCount := if status = .completed then records.length else batch.successfulCount })

section

-- the configurations, and what the calculator makes of an amount
variable (configs : List RoundupConfig) (calculateRoundup : RoundupConfig → Int → Option Int)

def getConfig (configId : Nat) : Call RoundupConfig := do
  let config ← Async.read fun _ => configs.find? (·.id = configId)
  orThrow config

def processBatch (records : List RoundupRecord) (configId : Nat) : Call Unit := do
  let _ ← getConfig configs configId
  let batchId ← Async.writeRead
    (·.insertBatch ⟨records.length, totalOf records, .processing, 0⟩) (·.batches.length)
  Async.all (records.map (markProcessing batchId))
  settleBatch records batchId (simulateDepositSuccess records)

def processRecordsForConfig (configId : Nat) : Call Unit := do
  let _ ← getConfig configs configId
  let pending ← Async.read (·.pending configId)
  if pending.length = 0 then pure () else processBatch configs pending configId

/-- One configuration after another. -/
def processEach : List Nat → Call Unit
  | [] => pure ()
  | configId :: rest => do
    processRecordsForConfig configs configId
    processEach rest

def listActiveConfigs (userId : Text) : List RoundupConfig :=
  configs.filter fun config => config.userId = userId ∧ config.isActive = true

def processRecordsForUser (userId : Text) : Call Unit := do
  let found ← Async.read fun _ => listActiveConfigs configs userId
  processEach configs (found.map (·.id))

def recordRoundup (userId : Text) (configId : Nat) (amount : Int) : Call Unit := do
  let config ← getConfig configs configId
  if config.userId ≠ userId then .failed
  else if config.isPaused || !config.isActive then pure ()
  else do
    let roundupAmount ← orThrow (calculateRoundup config amount)
    if roundupAmount < config.minRoundupAmount then pure ()
    else do
      Async.write (·.insertRecord userId configId roundupAmount)
      if config.frequency = .immediate then processRecordsForConfig configs configId else pure ()

/-- The calls that may run at the same time. -/
inductive Request where
  | record (userId : Text) (configId : Nat) (amount : Int)
  | processConfig (configId : Nat)
  | processUser (userId : Text)
  deriving Repr, DecidableEq

def Request.call : Request → Call Unit
  | .record userId configId amount => recordRoundup configs calculateRoundup userId configId amount
  | .processConfig configId => processRecordsForConfig configs configId
  | .processUser userId => processRecordsForUser configs userId

end

end Stow.Roundup
