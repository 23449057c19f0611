import Stow.Indexer.Gaps

/-! Rollbacks on a chain that never forks: whether the ledger and the hash of a checkpoint belong
together. -/
namespace Stow.Indexer

open Stow.Lib

/-- The pass of a reconciliation over one contract, or a checkpoint that is moved ahead. -/
inductive SyncMove where
  | pass (contract : Contract) (answers : SyncAnswers)
  | advance (contract : Contract) (ledger : Nat)

def syncStep (cfg : Config) (db : Db) : SyncMove → Db
  | .pass contract answers => runReconciliation cfg contract answers db
  | .advance contract ledger => advanceCheckpoint contract ledger db

section

variable (cfg : Config) (hash : Nat → String)

/-- The ledger that a pass ends at, which is the one the last lookup is for. -/
def endLedger (checkpoint : SyncCheckpoint) (chainHead : Nat) : Nat :=
  if chainHead ≤ checkpoint.lastIndexedLedger then checkpoint.lastIndexedLedger
  else windowEnd cfg checkpoint chainHead

/-- A lookup fails, or it finds the hash that the ledger has. -/
def Lookup (ledger : Nat) (answer : Option String) : Prop := ∀ h ∈ answer, h = hash ledger

instance (ledger : Nat) (answer : Option String) : Decidable (Lookup hash ledger answer) :=
  inferInstanceAs (Decidable (∀ h ∈ answer, h = hash ledger))

/-- The lookups of a pass are for the ledgers of the one chain. -/
def OneChain (db : Db) : SyncMove → Prop
  | .pass contract answers =>
    Lookup hash (db.syncOf contract).lastIndexedLedger answers.indexedHash ∧
    Lookup hash (forkLedgerOf cfg (db.syncOf contract)) answers.forkHash ∧
    ∀ chainHead ∈ answers.chainHead,
      Lookup hash (endLedger cfg (searched cfg contract answers db).1 chainHead) answers.finalHash
  | .advance _ _ => True

instance (db : Db) : ∀ e, Decidable (OneChain cfg hash db e)
  | .pass contract answers => inferInstanceAs (Decidable (_ ∧ _ ∧ ∀ chainHead ∈ answers.chainHead,
      Lookup hash (endLedger cfg (searched cfg contract answers db).1 chainHead)
        answers.finalHash))
  | .advance _ _ => inferInstanceAs (Decidable True)

/-- The hash stored for a contract, if there is one, is the hash of the ledger. -/
def HashOf (db : Db) (contract : Contract) (ledger : Nat) : Prop :=
  Lookup hash ledger (truthy (db.syncOf contract).lastIndexedLedgerHash)

instance (db : Db) (contract : Contract) (ledger : Nat) :
    Decidable (HashOf hash db contract ledger) :=
  inferInstanceAs (Decidable (Lookup hash ledger _))

/-- The ledger and the hash of every checkpoint belong together. -/
def Paired (db : Db) : Prop :=
  ∀ contract, HashOf hash db contract (db.syncOf contract).lastIndexedLedger

/-- A checkpoint that is moved gets the hash of its new ledger, or had none, or had that one. -/
def KeepsPair (db : Db) : SyncMove → Prop
  | .pass contract answers => cfg.rpcUrl = true → answers.finalHash = none →
      ∀ chainHead ∈ answers.chainHead,
        HashOf hash db contract (endLedger cfg (db.syncOf contract) chainHead)
  | .advance contract ledger =>
      (db.syncOf contract).lastIndexedLedger < ledger → HashOf hash db contract ledger

instance (db : Db) : ∀ e, Decidable (KeepsPair cfg hash db e)
  | .pass contract answers => inferInstanceAs (Decidable (cfg.rpcUrl = true →
      answers.finalHash = none → ∀ chainHead ∈ answers.chainHead,
        HashOf hash db contract (endLedger cfg (db.syncOf contract) chainHead)))
  | .advance contract ledger => inferInstanceAs (Decidable
      ((db.syncOf contract).lastIndexedLedger < ledger → HashOf hash db contract ledger))

/-- No event is gone, no checkpoint is rewound, and no rollback is on record. -/
structure Intact (before after : Db) : Prop where
  rows : after.events = before.events
  poller : after.lastProcessedLedger = before.lastProcessedLedger
  checkpoints : ∀ contract, after.syncOf contract = before.syncOf contract
  reorgs : after.reorgs = before.reorgs

/-- The search for a fork finds none. -/
def NoRollback (db : Db) : SyncMove → Prop
  | .pass contract answers => cfg.rpcUrl = true → Intact db (searched cfg contract answers db).2
  | .advance _ _ => True

end

variable {cfg : Config} {hash : Nat → String} {contract : Contract} {answers : SyncAnswers}
  {db : Db} {checkpoint : SyncCheckpoint}

/-- A window ends the pass at its last ledger, whatever the request for it gave. -/
theorem fillWindow_saves (cfg : Config) (contract : Contract) (answers : SyncAnswers)
    (chainHead : Nat) (checkpoint : SyncCheckpoint) (db : Db) :
    ∃ rows saved, fillWindow cfg contract answers chainHead checkpoint db =
        (db.persist rows).saveSync contract saved ∧
      saved.lastIndexedLedger = endLedger cfg checkpoint chainHead ∧
      saved.lastIndexedLedgerHash = answers.finalHash.or checkpoint.lastIndexedLedgerHash := by
  unfold fillWindow endLedger
  simp only
  split_ifs with hcg hc
  · exact ⟨[], _, rfl, rfl, rfl⟩
  · exact ⟨_, _, rfl, rfl, rfl⟩
  · -- the number of new rows is never negative
    refine absurd ?_ hc
    have hp := Table.prefix_insertAll Row.key db.events
      (answers.gap.rows (windowEnd cfg checkpoint chainHead))
    exact Int.sub_nonneg_of_le (Int.ofNat_le.mpr hp.length_le)

section

variable (h : Paired hash db)
  (hi : Lookup hash (db.syncOf contract).lastIndexedLedger answers.indexedHash)

include h hi

/-- With the pair intact a lookup can only find the hash that is stored. -/
theorem Paired.reorgFound : reorgFound (db.syncOf contract) answers = none := by
  unfold Indexer.reorgFound
  cases hst : truthy (db.syncOf contract).lastIndexedLedgerHash with
  | none => rfl
  | some previous =>
    cases hf : answers.indexedHash with
    | none => rfl
    | some current =>
      have hs : current = previous :=
        (hi current hf).trans (h contract previous hst).symm
      exact if_pos hs

theorem Paired.searched :
    searched cfg contract answers db =
      (db.syncOf contract, db.saveSync contract (db.syncOf contract)) := by
  unfold Indexer.searched detectAndHandleReorg
  rw [h.reorgFound hi]

end

theorem Paired.noRollback (h : Paired hash db) (e : SyncMove) (hc : OneChain cfg hash db e) :
    NoRollback cfg db e := by
  cases e with
  | advance contract ledger => trivial
  | pass contract answers =>
    intro _
    rw [h.searched hc.1]
    exact ⟨rfl, rfl, syncOf_saveSync_same db contract, rfl⟩

/-- A database whose checkpoints are those of a paired one, apart from one contract's. -/
theorem paired_iff_of_others {db' : Db} (contract : Contract) (h : Paired hash db)
    (ho : ∀ other, other ≠ contract → db'.syncOf other = db.syncOf other) :
    Paired hash db' ↔ HashOf hash db' contract (db'.syncOf contract).lastIndexedLedger := by
  constructor
  · intro h'
    exact h' contract
  · intro hs other
    by_cases heq : other = contract
    · exact heq ▸ hs
    · unfold HashOf
      rw [ho other heq]
      exact h other

theorem Paired.saveSync_same (h : Paired hash db) (contract : Contract) :
    Paired hash (db.saveSync contract (db.syncOf contract)) := by
  intro other
  unfold HashOf
  rw [syncOf_saveSync_same]
  exact h other

theorem advance_paired_iff (h : Paired hash db) (contract : Contract) (ledger : Nat) :
    Paired hash (advanceCheckpoint contract ledger db) ↔
      KeepsPair cfg hash db (.advance contract ledger) := by
  unfold advanceCheckpoint
  simp only [KeepsPair]
  split_ifs with ha
  · rw [paired_iff_of_others contract h]
    · unfold HashOf
      rw [syncOf_saveSync, if_pos rfl]
      exact ⟨fun hn _ => hn, fun hn => hn ha⟩
    · intro other hne
      rw [syncOf_saveSync, if_neg hne, syncOf_saveSync_same]
  · exact iff_of_true (h.saveSync_same contract) (fun hlt => absurd hlt ha)

theorem pass_paired_iff (h : Paired hash db)
    (hc : OneChain cfg hash db (.pass contract answers)) :
    Paired hash (runReconciliation cfg contract answers db) ↔
      KeepsPair cfg hash db (.pass contract answers) := by
  have hs : detectAndHandleReorg cfg contract answers (db.syncOf contract)
      (db.saveSync contract (db.syncOf contract)) =
        (db.syncOf contract, db.saveSync contract (db.syncOf contract)) := h.searched hc.1
  unfold runReconciliation
  simp only [KeepsPair, hs]
  split_ifs with hr
  · exact iff_of_true (h.saveSync_same contract) (fun hu => absurd hu (by simp [hr]))
  · have hu : cfg.rpcUrl = true := by simpa using hr
    cases hh : answers.chainHead with
    | none => exact iff_of_true (h.saveSync_same contract) (fun _ _ _ hm => by cases hm)
    | some chainHead =>
      obtain ⟨rows, saved, heq, hl, hst⟩ := fillWindow_saves cfg contract answers chainHead
        (db.syncOf contract) (db.saveSync contract (db.syncOf contract))
      simp only [heq]
      rw [paired_iff_of_others contract h]
      · unfold HashOf
        rw [syncOf_saveSync, if_pos rfl, hl, hst]
        cases hfn : answers.finalHash with
        | none =>
          constructor
          · intro hnw _ _ head hm
            cases hm
            exact hnw
          · intro hnw
            exact hnw hu rfl chainHead rfl
        | some final =>
          refine iff_of_true ?_ (fun _ hn => by cases hn)
          have hf := hc.2.2 chainHead hh
          rw [h.searched hc.1, hfn] at hf
          intro h' hm
          exact hf h' (Option.filter_eq_some_iff.mp hm).1
      · intro other hne
        rw [syncOf_saveSync, if_neg hne]
        exact syncOf_saveSync_same db contract other

theorem paired_step_iff (db : Db) (e : SyncMove) (h : Paired hash db)
    (hc : OneChain cfg hash db e) :
    Paired hash (syncStep cfg db e) ↔ KeepsPair cfg hash db e := by
  cases e with
  | pass contract answers => exact pass_paired_iff h hc
  | advance contract ledger => exact advance_paired_iff h contract ledger

/-- On a chain that never forks, the ledger and the hash of every checkpoint belong together
throughout a run exactly when every checkpoint that is moved gets the hash of its new ledger, and
then nothing is ever rolled back. -/
theorem rollbacks_without_fork {cfg : Config} {hash : Nat → String} {db : Db} {es : List SyncMove}
    (hpaired : Paired hash db) (hchain : AllSteps (syncStep cfg) (OneChain cfg hash) db es) :
    (AllStates (syncStep cfg) (Paired hash) db es ↔
        AllSteps (syncStep cfg) (KeepsPair cfg hash) db es) ∧
      (AllSteps (syncStep cfg) (KeepsPair cfg hash) db es →
        AllSteps (syncStep cfg) (NoRollback cfg) db es) := by
  refine ⟨allStates_iff_allSteps_along paired_step_iff hpaired hchain, ?_⟩
  intro hk
  refine invariant_allSteps (P := fun db e => OneChain cfg hash db e ∧ KeepsPair cfg hash db e)
    ?_ ?_ hpaired (hchain.and hk)
  · intro s e hs he
    exact (paired_step_iff s e hs he.1).mpr he.2
  · intro s e hs he
    exact hs.noRollback e he.1

theorem paired_empty (hash : Nat → String) : Paired hash .empty := by
  intro contract h hm
  cases hm

def ledgerHash (ledger : Nat) : String := String.ofList (List.replicate (ledger + 1) 'h')

/-- A pass up to the given head in which every lookup succeeds. -/
def foundPass (last chainHead : Nat) : SyncMove :=
  .pass 1 ⟨some (ledgerHash last), none, some chainHead,
    .events (oneEvent.events.map (fun e => some e.record)), some (ledgerHash chainHead)⟩

/-- Two passes in which every lookup succeeds, and a checkpoint that is moved ahead before there
is a hash. -/
theorem found_never_rolls_back :
    AllSteps (syncStep vaultOnly) (NoRollback vaultOnly) .empty
      [.advance 1 2, foundPass 2 5, foundPass 5 9] :=
  (rollbacks_without_fork (paired_empty ledgerHash) (by decide +kernel)).2 (by decide +kernel)

/-- The lookup at the end of the second pass fails, and everything else works. -/
def unfoundHash : List SyncMove :=
  [foundPass 0 5,
    .pass 1 ⟨some (ledgerHash 5), none, some 9, .events [], none⟩,
    .pass 1 ⟨some (ledgerHash 9), some (ledgerHash 0), none, .events [], none⟩]

/-- The chain never forks. The third pass takes the hash of ledger 5 for a hash of ledger 9,
deletes the event, rewinds the checkpoint and records a rollback. -/
theorem unfoundHash_rolls_back :
    AllSteps (syncStep vaultOnly) (OneChain vaultOnly ledgerHash) .empty unfoundHash ∧
      (runFrom (syncStep vaultOnly) .empty (unfoundHash.take 2)).events.rows.length = 1 ∧
      (runFrom (syncStep vaultOnly) .empty unfoundHash).events.rows = [] ∧
      ((runFrom (syncStep vaultOnly) .empty (unfoundHash.take 2)).syncOf 1).lastIndexedLedger = 9 ∧
      ((runFrom (syncStep vaultOnly) .empty unfoundHash).syncOf 1).lastIndexedLedger = 0 ∧
      (runFrom (syncStep vaultOnly) .empty unfoundHash).reorgs.length = 1 := by
  decide +kernel

end Stow.Indexer
