import Stow.Lib.Machine
import Stow.Indexer.Fetch

/-! The poller, its maintenance calls, and the reconciliation that fills gaps behind it. -/
namespace Stow.Indexer

open Stow.Lib

/-! ### Polling -/

/-- The row a fetched event is stored as. -/
def RpcEvent.row (e : RpcEvent) (logIndex : Nat) : Row :=
  ⟨e.ledger, logIndex, e.topic.headD "unknown", e.value, e.txHash, .pending, 0, e.origin⟩

/-- Every event under its position in the list. -/
def rowsOf (events : List RpcEvent) : List Row := events.zipIdx.map (fun p => p.1.row p.2)

def startLedgerOf (lastProcessed : Nat) : Nat := if 0 < lastProcessed then lastProcessed + 1 else 1

/-- Where the poller continues after a response. -/
def newCheckpoint (lastProcessed : Nat) (response : EventsResponse) : Nat :=
  let maxEventLedger := response.events.foldl (fun m e => if m < e.ledger then e.ledger else m)
    lastProcessed
  if 0 < response.events.length then max maxEventLedger response.latestLedger
  else max lastProcessed response.latestLedger

def Db.lastProcessed (db : Db) : Nat := db.lastProcessedLedger.getD 0

/-- What a poll makes of a response. -/
def Db.absorb (db : Db) (response : EventsResponse) : Db :=
  let checkpoint := newCheckpoint db.lastProcessed response
  { db.persist (rowsOf response.events) with
    latestContractLedger :=
      if 0 < response.latestLedger then some response.latestLedger else db.latestContractLedger
    lastProcessedLedger :=
      if db.lastProcessed < checkpoint then some checkpoint else db.lastProcessedLedger }

/-- A fetch that has not ended has changed nothing. -/
def fetchAndPersistEvents (cfg : Config) (servers : List Server) (db : Db) : Db :=
  match getEvents cfg (startLedgerOf db.lastProcessed) .default servers with
  | some response => db.absorb response
  | none => db

/-- Without a contract there is nothing to poll. The events stored are not applied here. -/
def pollContractEvents (cfg : Config) (servers : List Server) (db : Db) : Db :=
  if cfg.contractId = none then db else fetchAndPersistEvents cfg servers db

def reindex (fromLedger : Nat) (db : Db) : Db := { db with lastProcessedLedger := some fromLedger }

def backfillMaxPages : Nat := 1000

structure BackfillResponse where
  totalFetched : Nat
  newlyProcessed : Nat
  alreadyIndexed : Nat
  deriving Repr, DecidableEq

/-- The loop of a backfill, over the node at the requests of each of its fetches. -/
def backfillLoop (cfg : Config) (fromLedger toLedger : Nat) :
    List (List Server) → (pages cursor : Nat) → Db → BackfillResponse → Db × BackfillResponse
  | [], _, _, db, response => (db, response)
  | servers :: rest, pages, cursor, db, response =>
    if cursor ≤ toLedger ∧ pages < backfillMaxPages then
      match getEvents cfg cursor .default servers with
      | none => (db, response)
      | some fetched =>
        if fetched.events.length = 0 then (db, response)
        else
          let inRange := fetched.events.filter
            (fun e => fromLedger ≤ e.ledger && e.ledger ≤ toLedger)
          -- the position in the filtered page, not in the response
          let db' := db.persist (rowsOf inRange)
          let inserted := db'.events.rows.length - db.events.rows.length
          let response := ⟨response.totalFetched + inRange.length,
            response.newlyProcessed + inserted,
            response.alreadyIndexed + (inRange.length - inserted)⟩
          let cursor := match maxLedger inRange with
            | some ledger => ledger + 1
            | none => toLedger + 1
          backfillLoop cfg fromLedger toLedger rest (pages + 1) cursor db' response
    else (db, response)

def backfillEvents (cfg : Config) (fromLedger toLedger : Nat) (fetches : List (List Server))
    (db : Db) : Db × BackfillResponse :=
  backfillLoop cfg fromLedger toLedger fetches 0 fromLedger db ⟨0, 0, 0⟩

/-! ### Reconciliation -/

/-- How the request for a gap ends: with a status, an error, an exception after some of the events
were handled, or events. -/
inductive GapAnswer where
  | httpError
  | rpcError
  | thrown (handled : List (Option Record))
  | events (raw : List (Option Record))

/-- What the node answers while one contract is reconciled. A lookup that fails gives `none`. -/
structure SyncAnswers where
  indexedHash : Option String
  forkHash : Option String
  chainHead : Option Nat
  gap : GapAnswer
  finalHash : Option String

def extractEventType (r : Record) : Option String := (r.type.or r.valueEvent).or r.valueEventType

/-- The row for an object of the answer, unless it has no ledger or lies beyond the gap. Only a
number counts as a ledger here, and without a log index it is 0. -/
def gapRow (toLedger : Nat) : Option Record → Option Row
  | none => none
  | some r =>
    match r.ledger with
    | .number ledger =>
      if toLedger < ledger then none
      else some ⟨ledger, r.logIndex.getD 0, (truthy (extractEventType r)).getD "unknown",
        (r.value.or r.data).getD "\x7b\x7d", r.txHashSnake, .pending, 0, r.origin⟩
    | _ => none

def GapAnswer.rows (toLedger : Nat) : GapAnswer → List Row
  | .httpError | .rpcError => []
  | .thrown raw | .events raw => raw.filterMap (gapRow toLedger)

/-- The database after the gap is filled, and the number of rows that are new. -/
def backfillGap (toLedger : Nat) (answer : GapAnswer) (db : Db) : Db × Int :=
  let db' := db.persist (answer.rows toLedger)
  (db', db'.events.rows.length - db.events.rows.length)

def defaultReconcileWindow : Nat := 200

def defaultReorgRollbackDepth : Nat := 10

def getReconcileWindow (cfg : Config) : Nat :=
  match cfg.reconcileWindow with
  | some window => if 0 < window then window else defaultReconcileWindow
  | none => defaultReconcileWindow

def getReconciledContractIds (cfg : Config) : List Contract :=
  [cfg.contractId, cfg.yieldAdapterContractId].filterMap id

/-- Everything above the ledger goes, whichever contract it is from. -/
def Db.rollback (db : Db) (forkLedger : Nat) : Db :=
  { db with
    events := db.events.retain (fun row => row.ledger ≤ forkLedger)
    lastProcessedLedger := db.lastProcessedLedger.map (fun _ => forkLedger) }

def Db.saveSync (db : Db) (contract : Contract) (checkpoint : SyncCheckpoint) : Db :=
  { db with sync := db.sync.set contract checkpoint }

/-- The hashes differ: the one stored and the one the chain has now. -/
def reorgFound (checkpoint : SyncCheckpoint) (answers : SyncAnswers) : Option (String × String) :=
  match truthy checkpoint.lastIndexedLedgerHash, answers.indexedHash with
  | some previous, some current => if current = previous then none else some (previous, current)
  | _, _ => none

def forkLedgerOf (cfg : Config) (checkpoint : SyncCheckpoint) : Nat :=
  checkpoint.lastIndexedLedger - cfg.reorgRollbackDepth.getD defaultReorgRollbackDepth

def detectAndHandleReorg (cfg : Config) (contract : Contract) (answers : SyncAnswers)
    (checkpoint : SyncCheckpoint) (db : Db) : SyncCheckpoint × Db :=
  match reorgFound checkpoint answers with
  | none => (checkpoint, db)
  | some (previousHash, newHash) =>
    let forkLedger := forkLedgerOf cfg checkpoint
    let rolledBack := (db.events.rows.filter (fun row => forkLedger < row.ledger)).length
    let rewound := { checkpoint with
      lastIndexedLedger := forkLedger
      lastIndexedLedgerHash := answers.forkHash }
    let db := (db.rollback forkLedger).saveSync contract rewound
    (rewound, { db with
      reorgs := db.reorgs ++ [⟨contract, forkLedger, checkpoint.lastIndexedLedger, previousHash,
        newHash, rolledBack⟩] })

/-- One window behind the head of the chain. -/
def fillWindow (cfg : Config) (contract : Contract) (answers : SyncAnswers) (chainHead : Nat)
    (checkpoint : SyncCheckpoint) (db : Db) : Db :=
  let checkpoint := { checkpoint with chainHeadLedger := chainHead }
  if chainHead ≤ checkpoint.lastIndexedLedger then
    db.saveSync contract { checkpoint with
      lastIndexedLedgerHash := answers.finalHash.or checkpoint.lastIndexedLedgerHash }
  else
    let fromLedger := max (checkpoint.lastIndexedLedger + 1) 1
    let toLedger := min (fromLedger + getReconcileWindow cfg - 1) chainHead
    let (db, backfilledCount) := backfillGap toLedger answers.gap db
    db.saveSync contract { checkpoint with
      lastReconciledFrom := fromLedger
      lastReconciledTo := toLedger
      lastBackfillCount := backfilledCount
      -- no outcome of the request is negative
      lastIndexedLedger :=
        if 0 ≤ backfilledCount then toLedger else checkpoint.lastIndexedLedger
      lastIndexedLedgerHash := answers.finalHash.or checkpoint.lastIndexedLedgerHash }

def Db.syncOf (db : Db) (contract : Contract) : SyncCheckpoint :=
  (db.sync.get contract).getD .fresh

def runReconciliation (cfg : Config) (contract : Contract) (answers : SyncAnswers) (db : Db) :
    Db :=
  let checkpoint := db.syncOf contract
  let db := db.saveSync contract checkpoint
  if cfg.rpcUrl = false then db
  else
    let (checkpoint, db) := detectAndHandleReorg cfg contract answers checkpoint db
    match answers.chainHead with
    | none => db
    | some chainHead => fillWindow cfg contract answers chainHead checkpoint db

/-- One contract after the other. -/
def reconcileEach (cfg : Config) : List (Contract × SyncAnswers) → Db → Db
  | [], db => db
  | (contract, answers) :: rest, db =>
    reconcileEach cfg rest (runReconciliation cfg contract answers db)

def reconcile (cfg : Config) (answers : List SyncAnswers) (db : Db) : Db :=
  if cfg.reconcileEnabled then reconcileEach cfg ((getReconciledContractIds cfg).zip answers) db
  else db

/-- The ledger of a checkpoint moves ahead by itself. -/
def advanceCheckpoint (contract : Contract) (ledger : Nat) (db : Db) : Db :=
  let checkpoint := db.syncOf contract
  let db := db.saveSync contract checkpoint
  if checkpoint.lastIndexedLedger < ledger then
    db.saveSync contract { checkpoint with lastIndexedLedger := ledger }
  else db

/-! ### The machine -/

inductive Move where
  | poll (servers : List Server)
  | reindex (fromLedger : Nat)
  | backfill (fromLedger toLedger : Nat) (fetches : List (List Server))
  | reconcile (answers : List SyncAnswers)

def step (cfg : Config) (db : Db) : Move → Db
  | .poll servers => pollContractEvents cfg servers db
  | .reindex fromLedger => Indexer.reindex fromLedger db
  | .backfill fromLedger toLedger fetches => (backfillEvents cfg fromLedger toLedger fetches db).1
  | .reconcile answers => Indexer.reconcile cfg answers db

/-! ### What the poller's calls keep -/

variable {cfg : Config} {db : Db}

/-- A poll changes nothing, or it absorbs its response. -/
theorem pollContractEvents_cases (cfg : Config) (servers : List Server) (db : Db) :
    pollContractEvents cfg servers db = db ∨
      ∃ response, getEvents cfg (startLedgerOf db.lastProcessed) .default servers = some response ∧
        pollContractEvents cfg servers db = db.absorb response := by
  unfold pollContractEvents fetchAndPersistEvents
  split_ifs
  · exact .inl rfl
  · cases getEvents cfg (startLedgerOf db.lastProcessed) .default servers with
    | none => exact .inl rfl
    | some response => exact .inr ⟨response, rfl, rfl⟩

/-- What storing rows keeps, a backfill keeps. -/
theorem backfillLoop_induction {I : Db → Prop} (hp : ∀ db rows, I db → I (db.persist rows))
    {fromLedger toLedger : Nat} (fetches : List (List Server)) (pages cursor : Nat)
    (response : BackfillResponse) (h : I db) :
    I (backfillLoop cfg fromLedger toLedger fetches pages cursor db response).1 := by
  induction fetches generalizing pages cursor db response with
  | nil => exact h
  | cons servers rest ih =>
    unfold backfillLoop
    split_ifs with hr
    · cases getEvents cfg cursor .default servers with
      | none => exact h
      | some fetched =>
        simp only
        split_ifs with he
        · exact h
        · exact ih _ _ _ (hp db _ h)
    · exact h

end Stow.Indexer
