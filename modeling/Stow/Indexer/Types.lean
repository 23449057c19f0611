import Stow.Lib.KeyedTable
import Stow.Lib.SortedMap

/-! What the indexer reads from a chain and what it keeps of it. -/
namespace Stow.Indexer

open Stow.Lib

abbrev Contract := Nat

/-- An event on the chain. Its id is its own. -/
structure ChainEvent where
  id : String
  contract : Contract
  ledger : Nat
  topic : List String
  value : String
  txHash : String
  deriving Repr, DecidableEq

/-- Everything ever emitted, in the order of the ledgers, which are numbered from 1. -/
structure Chain where
  events : List ChainEvent
  numbered : ∀ e ∈ events, 1 ≤ e.ledger
  ordered : events.Pairwise (fun a b => a.ledger ≤ b.ledger)
  ids : (events.map (·.id)).Nodup

/-- The events of one contract. -/
def Chain.of (chain : Chain) (contract : Contract) : List ChainEvent :=
  chain.events.filter (·.contract = contract)

/-! ### Answers of the node -/

/-- A member that should be a number: a number, a text that may parse as one, or neither. -/
inductive Field where
  | number (n : Nat)
  | text (parsed : Option Nat)
  | other
  deriving Repr, DecidableEq

/-- An object in the list of events of an answer. A missing id stands for the one generated in its
place. The last member is not part of the answer: it is the event the object is about. -/
structure Record where
  id : String
  ledger : Field
  logIndex : Option Nat
  topic : List String
  type : Option String
  valueEvent : Option String
  valueEventType : Option String
  value : Option String
  data : Option String
  txHash : Option String
  txHashSnake : Option String
  origin : ChainEvent
  deriving Repr, DecidableEq

/-- What a node that tells the truth says of an event. -/
def ChainEvent.record (e : ChainEvent) : Record where
  id := e.id
  ledger := .number e.ledger
  logIndex := none
  topic := e.topic
  type := none
  valueEvent := none
  valueEventType := none
  value := some e.value
  data := none
  txHash := some e.txHash
  txHashSnake := none
  origin := e

/-- An event as `getEvents` returns it. -/
structure RpcEvent where
  id : String
  ledger : Nat
  topic : List String
  value : String
  txHash : Option String
  origin : ChainEvent
  deriving Repr, DecidableEq

def toNumber : Field → Option Nat
  | .number n => some n
  | .text parsed => parsed
  | .other => none

/-- `none` stands for what is no object. -/
def normalizeEvent : Option Record → Option RpcEvent
  | none => none
  | some r => (toNumber r.ledger).map (fun ledger =>
      ⟨r.id, ledger, r.topic, (r.value.or r.data).getD "\x7b\x7d", r.txHash.or r.txHashSnake,
        r.origin⟩)

/-! ### The database -/

inductive ContractEventStatus where
  | pending | processed | failed | dlq
  deriving Repr, DecidableEq

/-- A row of `contract_events`. The last member is no column: it is the event the row was made
from, and nothing reads it. -/
structure Row where
  ledger : Nat
  logIndex : Nat
  eventType : String
  data : String
  txHash : Option String
  status : ContractEventStatus
  retryCount : Nat
  origin : ChainEvent
  deriving Repr, DecidableEq

/-- What a writer looks for before it inserts. -/
def Row.key (row : Row) : Nat × Nat := (row.ledger, row.logIndex)

/-- The progress of the reconciliation of one contract. -/
structure SyncCheckpoint where
  lastIndexedLedger : Nat
  lastIndexedLedgerHash : Option String
  chainHeadLedger : Nat
  lastReconciledFrom : Nat
  lastReconciledTo : Nat
  lastBackfillCount : Int
  deriving Repr, DecidableEq

def SyncCheckpoint.fresh : SyncCheckpoint := ⟨0, none, 0, 0, 0, 0⟩

structure ReorgEvent where
  contract : Contract
  forkLedger : Nat
  previousLedger : Nat
  previousHash : String
  newHash : String
  rolledBackEventCount : Nat
  deriving Repr, DecidableEq

/-- The tables: the events, the two ledgers the poller keeps, the checkpoint of each contract, and
the audit of rollbacks. -/
structure Db where
  events : Table Row
  lastProcessedLedger : Option Nat
  latestContractLedger : Option Nat
  sync : SortedMap Contract SyncCheckpoint
  reorgs : List ReorgEvent

def Db.empty : Db := ⟨.empty, none, none, .empty, []⟩

def Db.persist (db : Db) (rows : List Row) : Db :=
  { db with events := db.events.insertAll Row.key rows }

/-- The row was made from the event, in its ledger. -/
def Row.For (row : Row) (e : ChainEvent) : Prop := row.origin = e ∧ row.ledger = e.ledger

instance (row : Row) (e : ChainEvent) : Decidable (row.For e) := inferInstanceAs (Decidable (_ ∧ _))

/-- There is a row for the event. -/
def Db.Has (db : Db) (e : ChainEvent) : Prop := ∃ row ∈ db.events.rows, row.For e

instance (db : Db) (e : ChainEvent) : Decidable (db.Has e) :=
  inferInstanceAs (Decidable (∃ row ∈ db.events.rows, row.For e))

theorem Db.Has.persist {db : Db} {e : ChainEvent} (h : db.Has e) (rows : List Row) :
    (db.persist rows).Has e := by
  obtain ⟨row, hr, he⟩ := h
  exact ⟨row, Table.mem_insertAll_of_mem hr, he⟩

/-- A row for the event is there once one was tried under a key that no other event has. -/
theorem Db.has_persist {db : Db} {e : ChainEvent} {row : Row} {rows : List Row} (h : row ∈ rows)
    (hold : ∀ r ∈ db.events.rows, r.key = row.key → r.For e)
    (hn : ∀ r ∈ rows, r.key = row.key → r.For e) : (db.persist rows).Has e :=
  Table.stored_of_tried h hold hn

end Stow.Indexer
