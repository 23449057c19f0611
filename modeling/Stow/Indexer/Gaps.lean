import Stow.Indexer.Identity

/-! Reconciliation: whether everything up to a contract's checkpoint has been stored. -/
namespace Stow.Indexer

open Stow.Lib

section

variable (cfg : Config) (chain : Chain)

/-- Every event of a reconciled contract up to its checkpoint is stored. -/
def GapsFilled (db : Db) : Prop :=
  ∀ contract ∈ getReconciledContractIds cfg, ∀ e ∈ chain.of contract,
    e.ledger ≤ (db.syncOf contract).lastIndexedLedger → db.Has e

instance (db : Db) : Decidable (GapsFilled cfg chain db) :=
  inferInstanceAs (Decidable (∀ _ ∈ _, ∀ _ ∈ _, _))

/-- Every event of the contract in the range is stored already, or comes back as a row under a key
that neither a stored row nor another row of the answer has for something else. -/
def GapDelivered (contract : Contract) (fromLedger toLedger : Nat) (rows : List Row) (db : Db) :
    Prop :=
  ∀ e ∈ chain.of contract, fromLedger ≤ e.ledger → e.ledger ≤ toLedger → db.Has e ∨
    ∃ row ∈ rows, ∀ other ∈ db.events.rows ++ rows, other.key = row.key → other.For e

instance (contract : Contract) (fromLedger toLedger : Nat) (rows : List Row) (db : Db) :
    Decidable (GapDelivered chain contract fromLedger toLedger rows db) :=
  inferInstanceAs (Decidable (∀ _ ∈ _, _))

/-- The last ledger of the next window. -/
def windowEnd (checkpoint : SyncCheckpoint) (chainHead : Nat) : Nat :=
  min (max (checkpoint.lastIndexedLedger + 1) 1 + getReconcileWindow cfg - 1) chainHead

/-- A window that is passed over is delivered. -/
def WindowDelivered (contract : Contract) (answers : SyncAnswers) (checkpoint : SyncCheckpoint)
    (db : Db) : Prop :=
  ∀ chainHead ∈ answers.chainHead, checkpoint.lastIndexedLedger < chainHead →
    GapDelivered chain contract (checkpoint.lastIndexedLedger + 1)
      (windowEnd cfg checkpoint chainHead)
      (answers.gap.rows (windowEnd cfg checkpoint chainHead)) db

instance (contract : Contract) (answers : SyncAnswers) (checkpoint : SyncCheckpoint) (db : Db) :
    Decidable (WindowDelivered cfg chain contract answers checkpoint db) :=
  inferInstanceAs (Decidable (∀ _ ∈ answers.chainHead, _))

/-- A rollback on one contract spares the events that another contract's checkpoint covers. -/
def RollbackHarmless (contract : Contract) (answers : SyncAnswers) (db : Db) : Prop :=
  reorgFound (db.syncOf contract) answers ≠ none →
    ∀ other ∈ getReconciledContractIds cfg, other ≠ contract → ∀ e ∈ chain.of other,
      e.ledger ≤ (db.syncOf other).lastIndexedLedger →
        e.ledger ≤ forkLedgerOf cfg (db.syncOf contract)

instance (contract : Contract) (answers : SyncAnswers) (db : Db) :
    Decidable (RollbackHarmless cfg chain contract answers db) :=
  inferInstanceAs (Decidable (_ → ∀ _ ∈ _, _))

/-- The state in which the window of a contract is requested. -/
def searched (contract : Contract) (answers : SyncAnswers) (db : Db) : SyncCheckpoint × Db :=
  detectAndHandleReorg cfg contract answers (db.syncOf contract)
    (db.saveSync contract (db.syncOf contract))

def PassDelivered (contract : Contract) (answers : SyncAnswers) (db : Db) : Prop :=
  RollbackHarmless cfg chain contract answers db ∧
    WindowDelivered cfg chain contract answers (searched cfg contract answers db).1
      (searched cfg contract answers db).2

instance (contract : Contract) (answers : SyncAnswers) (db : Db) :
    Decidable (PassDelivered cfg chain contract answers db) := inferInstanceAs (Decidable (_ ∧ _))

def EachDelivered : List (Contract × SyncAnswers) → Db → Prop
  | [], _ => True
  | (contract, answers) :: rest, db =>
    PassDelivered cfg chain contract answers db ∧
      EachDelivered rest (runReconciliation cfg contract answers db)

instance instDecidableEachDelivered :
    ∀ passes db, Decidable (EachDelivered cfg chain passes db)
  | [], _ => inferInstanceAs (Decidable True)
  | (contract, answers) :: rest, db =>
    have : Decidable (EachDelivered cfg chain rest (runReconciliation cfg contract answers db)) :=
      instDecidableEachDelivered rest _
    inferInstanceAs (Decidable (PassDelivered cfg chain contract answers db ∧ _))

/-- A reconciliation delivers what it passes over. Nothing is asked of the other calls. -/
def Delivered (db : Db) : Move → Prop
  | .reconcile answers => EachDelivered cfg chain ((getReconciledContractIds cfg).zip answers) db
  | _ => True

instance (db : Db) : ∀ e, Decidable (Delivered cfg chain db e)
  | .reconcile answers => inferInstanceAs (Decidable
      (EachDelivered cfg chain ((getReconciledContractIds cfg).zip answers) db))
  | .poll _ | .reindex _ | .backfill _ _ _ => inferInstanceAs (Decidable True)

end

variable {cfg : Config} {chain : Chain} {contract : Contract} {answers : SyncAnswers} {db : Db}
  {checkpoint : SyncCheckpoint}

theorem syncOf_saveSync (db : Db) (contract other : Contract) (checkpoint : SyncCheckpoint) :
    (db.saveSync contract checkpoint).syncOf other =
      if other = contract then checkpoint else db.syncOf other := by
  unfold Db.syncOf Db.saveSync
  rw [SortedMap.get_set]
  split_ifs <;> rfl

/-- Creating the checkpoint of a contract changes no checkpoint. -/
theorem syncOf_saveSync_same (db : Db) (contract other : Contract) :
    (db.saveSync contract (db.syncOf contract)).syncOf other = db.syncOf other := by
  rw [syncOf_saveSync]
  split_ifs with heq
  · rw [heq]
  · rfl

theorem GapsFilled.persist (h : GapsFilled cfg chain db) (rows : List Row) :
    GapsFilled cfg chain (db.persist rows) :=
  fun contract hct e he hle => (h contract hct e he hle).persist rows

/-- A checkpoint is saved for a contract whose events are stored that far. -/
theorem GapsFilled.saveSync (h : GapsFilled cfg chain db)
    (hf : ∀ e ∈ chain.of contract, e.ledger ≤ checkpoint.lastIndexedLedger → db.Has e) :
    GapsFilled cfg chain (db.saveSync contract checkpoint) := by
  intro other ho e he hle
  rw [syncOf_saveSync] at hle
  split_ifs at hle with heq
  · subst heq
    exact hf e he hle
  · exact h other ho e he hle

theorem rollback_has {forkLedger : Nat} {e : ChainEvent} (h : db.Has e)
    (hle : e.ledger ≤ forkLedger) : (db.rollback forkLedger).Has e := by
  obtain ⟨row, hr, ho, hl⟩ := h
  exact ⟨row, List.mem_filter.mpr ⟨hr, decide_eq_true (hl.trans_le hle)⟩, ho, hl⟩

/-- The rows up to the fork stay, and no checkpoint is left beyond it. -/
theorem GapsFilled.rewind (checkpoint : SyncCheckpoint) (h : GapsFilled cfg chain db)
    (hct : contract ∈ getReconciledContractIds cfg)
    (hs : checkpoint.lastIndexedLedger ≤ (db.syncOf contract).lastIndexedLedger)
    (hot : ∀ other ∈ getReconciledContractIds cfg, other ≠ contract → ∀ e ∈ chain.of other,
      e.ledger ≤ (db.syncOf other).lastIndexedLedger → e.ledger ≤ checkpoint.lastIndexedLedger) :
    GapsFilled cfg chain
      ((db.rollback checkpoint.lastIndexedLedger).saveSync contract checkpoint) := by
  intro other ho e he hle
  rw [syncOf_saveSync] at hle
  split_ifs at hle with heq
  · subst heq
    exact rollback_has (h other hct e he (hle.trans hs)) hle
  · have hle : e.ledger ≤ (db.syncOf other).lastIndexedLedger := hle
    exact rollback_has (h other ho e he hle) (hot other ho heq e he hle)

/-- The search leaves the checkpoint that it returns. -/
theorem syncOf_searched (cfg : Config) (contract : Contract) (answers : SyncAnswers) (db : Db) :
    (searched cfg contract answers db).2.syncOf contract =
      (searched cfg contract answers db).1 := by
  unfold searched detectAndHandleReorg
  cases reorgFound (db.syncOf contract) answers with
  | none => exact syncOf_saveSync_same db contract contract
  | some hashes => exact (syncOf_saveSync _ contract contract _).trans (if_pos rfl)

section

variable (h : GapsFilled cfg chain db) (hct : contract ∈ getReconciledContractIds cfg)

include h hct

theorem detect_filled (hh : RollbackHarmless cfg chain contract answers db) :
    GapsFilled cfg chain (searched cfg contract answers db).2 := by
  have hs : GapsFilled cfg chain (db.saveSync contract (db.syncOf contract)) :=
    h.saveSync (h contract hct)
  unfold searched detectAndHandleReorg
  cases hr : reorgFound (db.syncOf contract) answers with
  | none => exact hs
  | some hashes =>
    have hot := hh (by rw [hr]; exact Option.some_ne_none _)
    refine GapsFilled.rewind { db.syncOf contract with
      lastIndexedLedger := forkLedgerOf cfg (db.syncOf contract)
      lastIndexedLedgerHash := answers.forkHash } hs hct ?_ ?_
    · rw [syncOf_saveSync_same]
      exact Nat.sub_le _ _
    · intro other ho hne e he hle
      rw [syncOf_saveSync_same] at hle
      exact hot other ho hne e he hle

theorem fillWindow_filled {chainHead : Nat} (hs : db.syncOf contract = checkpoint)
    (hh : answers.chainHead = some chainHead)
    (hd : WindowDelivered cfg chain contract answers checkpoint db) :
    GapsFilled cfg chain (fillWindow cfg contract answers chainHead checkpoint db) := by
  have hb : ∀ e ∈ chain.of contract, e.ledger ≤ checkpoint.lastIndexedLedger → db.Has e :=
    hs ▸ h contract hct
  unfold fillWindow
  simp only
  split_ifs with hc hcn
  · exact h.saveSync hb
  · refine (h.persist _).saveSync ?_
    intro e he hle
    -- either the event was reached before, or it lies in the window
    by_cases hold : e.ledger ≤ checkpoint.lastIndexedLedger
    · exact (hb e he hold).persist _
    · rcases hd chainHead hh (not_le.mp hc) e he (by omega) hle with
        hhs | ⟨row, hr, hk⟩
      · exact hhs.persist _
      · exact Db.has_persist hr (fun other ho => hk other (List.mem_append_left _ ho))
          (fun other ho => hk other (List.mem_append_right _ ho))
  · exact (h.persist _).saveSync (fun e he hle => (hb e he hle).persist _)

theorem runReconciliation_filled (hd : PassDelivered cfg chain contract answers db) :
    GapsFilled cfg chain (runReconciliation cfg contract answers db) := by
  unfold runReconciliation
  simp only
  split_ifs
  · exact h.saveSync (h contract hct)
  · have hf := detect_filled h hct hd.1
    have hs := syncOf_searched cfg contract answers db
    cases hh : answers.chainHead with
    | none => exact hf
    | some chainHead => exact fillWindow_filled hf hct hs hh hd.2

end

theorem reconcileEach_filled {passes : List (Contract × SyncAnswers)}
    (hps : ∀ pass ∈ passes, pass.1 ∈ getReconciledContractIds cfg)
    (h : GapsFilled cfg chain db) (hd : EachDelivered cfg chain passes db) :
    GapsFilled cfg chain (reconcileEach cfg passes db) := by
  induction passes generalizing db with
  | nil => exact h
  | cons pass rest ih =>
    refine ih (fun p hp => hps p (List.mem_cons_of_mem _ hp)) ?_ hd.2
    exact runReconciliation_filled h (hps pass List.mem_cons_self) hd.1

theorem filled_step (db : Db) (e : Move) (h : GapsFilled cfg chain db)
    (hd : Delivered cfg chain db e) : GapsFilled cfg chain (step cfg db e) := by
  cases e with
  | poll servers =>
    rcases pollContractEvents_cases cfg servers db with hs | ⟨response, -, ha⟩
    · rw [step, hs]
      exact h
    · rw [step, ha]
      exact h.persist (rowsOf response.events)
  | reindex fromLedger => exact h
  | backfill fromLedger toLedger fetches =>
    exact backfillLoop_induction (fun t rows ht => ht.persist rows) fetches 0 fromLedger _ h
  | reconcile answers =>
    simp only [step, reconcile]
    split_ifs
    · exact reconcileEach_filled (fun pass hp => (List.of_mem_zip hp).1) h hd
    · exact h

/-- Along every run of all the writers in which each reconciliation delivers the windows it passes
over and no rollback removes what another contract's checkpoint covers, every event of a reconciled
contract up to its checkpoint is stored. -/
theorem gaps_filled {cfg : Config} {chain : Chain} {es : List Move}
    (h : AllSteps (step cfg) (Delivered cfg chain) .empty es) :
    AllStates (step cfg) (GapsFilled cfg chain) .empty es := by
  refine invariant_allStates filled_step ?_ h
  intro contract _ e he hle
  have hp := chain.numbered e (List.mem_of_mem_filter he)
  have hz : e.ledger ≤ 0 := hle
  omega

/-- A node that gives each event of a ledger an index of its own. -/
def indexedGap (contract logIndex : Nat) : SyncAnswers :=
  ⟨none, none, some 2, .events ((twoContracts.of contract).map
    (fun e => some { e.record with logIndex := some logIndex })), some "h2"⟩

/-- Both contracts are reconciled up to the head of the chain. -/
theorem gaps_filled_both :
    AllSteps (step bothContracts) (Delivered bothContracts twoContracts) .empty
        [.reconcile [indexedGap 1 0, indexedGap 2 1]] ∧
      AllStates (step bothContracts) (GapsFilled bothContracts twoContracts) .empty
        [.reconcile [indexedGap 1 0, indexedGap 2 1]] :=
  have h : AllSteps (step bothContracts) (Delivered bothContracts twoContracts) .empty
      [.reconcile [indexedGap 1 0, indexedGap 2 1]] := by decide +kernel
  ⟨h, gaps_filled h⟩

/-- The request for the gap fails with a status, and everything else works. -/
def failedGap : List Move := [.reconcile [⟨none, none, some 5, .httpError, some "h5"⟩]]

/-- The checkpoint passes over the event all the same. -/
theorem failedGap_skipped :
    ((runFrom (step vaultOnly) .empty failedGap).syncOf 1).lastIndexedLedger = 5 ∧
      ¬GapsFilled vaultOnly oneEvent (runFrom (step vaultOnly) .empty failedGap) := by
  decide +kernel

end Stow.Indexer
