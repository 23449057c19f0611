import Stow.Indexer.Order
import Stow.Indexer.Reorgs

/-! Polls and reconciliations over a chain that forks, and what is stored by them. -/
namespace Stow.Indexer

open Stow.Lib Stow.Projection List

def Row.decoded (parse : String → Payload) (row : Row) : Decoded :=
  ⟨Topic.parse row.eventType, parse row.data⟩

def ChainEvent.decoded (parse : String → Payload) (e : ChainEvent) : Decoded :=
  ⟨Topic.parse (e.topic.headD "unknown"), parse e.value⟩

theorem models_handledViews {parse : String → Payload} (row : Row) (faults : List Bool)
    (v : Views) :
    (handledViews parse row faults v).models =
      if handledHere (Topic.parse row.eventType) then v.models
      else dispatch v.models ⟨row.decoded parse, faults⟩ := by
  unfold handledViews Row.handle
  split_ifs with hh
  · exact decodeAndApply_models hh
  · rw [exec_decodeAndApply (by simpa using hh)]
    rfl

/-- A step of a poll, or the pass of a reconciliation over one contract. -/
inductive RecoveryMove where
  | index (move : PollMove Poll)
  | pass (contract : Contract) (answers : SyncAnswers)

abbrev Pipeline.db (s : Pipeline) : Db := s.backend.db

def Pipeline.setDb (s : Pipeline) (db : Db) : Pipeline :=
  { s with backend := { s.backend with db := db } }

def recoveryStep (cfg : Config) (chain : Chain) (parse : String → Payload) (s : Pipeline) :
    RecoveryMove → Pipeline
  | .index move => chainStep cfg chain parse s move
  | .pass contract answers =>
    if cfg.reconcileEnabled = true ∧ contract ∈ getReconciledContractIds cfg then
      s.setDb (runReconciliation cfg contract answers s.db)
    else s

/-- The rows that were attempted so far, in order. -/
def attemptNote (s : Pipeline) (move : RecoveryMove) (attempted : List Row) : List Row :=
  match move with
  | .index (.attempt _) => attempted ++ s.batch.head?.toList
  | _ => attempted

/-! ### What the node answers -/

section

variable (cfg : Config) (chain : Chain)

/-- The rows that a pass tries, from a checkpoint on. -/
def windowRows (answers : SyncAnswers) (checkpoint : SyncCheckpoint) : List Row :=
  match answers.chainHead with
  | some chainHead =>
    if chainHead ≤ checkpoint.lastIndexedLedger then []
    else answers.gap.rows (windowEnd cfg checkpoint chainHead)
  | none => []

/-- The answer for a window has all events of the contract in it, and nothing that is not one. -/
structure ToldAll (contract : Contract) (answers : SyncAnswers) (checkpoint : SyncCheckpoint) :
    Prop where
  about : ∀ row ∈ windowRows cfg answers checkpoint,
    row.origin ∈ chain.of contract ∧ row.ledger = row.origin.ledger
  all : ∀ chainHead ∈ answers.chainHead, ∀ e ∈ chain.of contract,
    checkpoint.lastIndexedLedger < e.ledger → e.ledger ≤ windowEnd cfg checkpoint chainHead →
      ∃ row ∈ windowRows cfg answers checkpoint, row.origin = e

instance (contract : Contract) (answers : SyncAnswers) (checkpoint : SyncCheckpoint) :
    Decidable (ToldAll cfg chain contract answers checkpoint) :=
  decidable_of_iff (_ ∧ _) ⟨fun h => ⟨h.1, h.2⟩, fun h => ⟨h.about, h.all⟩⟩

/-- The lookups and the windows of a pass are those of the chain. -/
def Honest (hash : Nat → String) (p : Pipeline × List Row) : RecoveryMove → Prop
  | .index _ => True
  | .pass contract answers =>
    OneChain cfg hash p.1.db (.pass contract answers) ∧
      ToldAll cfg chain contract answers (searched cfg contract answers p.1.db).1

instance (hash : Nat → String) (p : Pipeline × List Row) : ∀ move,
    Decidable (Honest cfg chain hash p move)
  | .index _ => inferInstanceAs (Decidable True)
  | .pass contract answers =>
    inferInstanceAs (Decidable (OneChain cfg hash p.1.db (.pass contract answers) ∧ _))

/-! ### What keeps the tables in order -/

/-- The row says what its event says. -/
structure Row.Faithful (row : Row) : Prop where
  ledger : row.ledger = row.origin.ledger
  eventType : row.eventType = row.origin.topic.headD "unknown"
  data : row.data = row.origin.value

instance (row : Row) : Decidable row.Faithful :=
  decidable_of_iff (_ ∧ _ ∧ _) ⟨fun h => ⟨h.1, h.2.1, h.2.2⟩, fun h => ⟨h.1, h.2, h.3⟩⟩

/-- Among the rows and the stored ones, the same key is the same event. -/
def Identified (db : Db) (rows : List Row) : Prop :=
  ∀ row ∈ rows, ∀ other ∈ db.events.rows ++ rows,
    other.key = row.key ↔ other.origin = row.origin

instance (db : Db) (rows : List Row) : Decidable (Identified db rows) :=
  inferInstanceAs (Decidable (∀ row ∈ rows, ∀ other ∈ db.events.rows ++ rows,
    other.key = row.key ↔ other.origin = row.origin))

/-- A rollback comes between two batches, and removes nothing that was attempted and nothing that
another contract's checkpoint covers. -/
structure Spared (contract : Contract) (answers : SyncAnswers) (s : Pipeline) : Prop where
  idle : reorgFound (s.db.syncOf contract) answers ≠ none → s.batch = []
  pending : reorgFound (s.db.syncOf contract) answers ≠ none → ∀ row ∈ s.rows,
    forkLedgerOf cfg (s.db.syncOf contract) < row.ledger → row.status = .pending
  harmless : RollbackHarmless cfg chain contract answers s.db

instance (contract : Contract) (answers : SyncAnswers) (s : Pipeline) :
    Decidable (Spared cfg chain contract answers s) :=
  decidable_of_iff (_ ∧ _ ∧ _)
    ⟨fun h => ⟨h.1, h.2.1, h.2.2⟩, fun h => ⟨h.idle, h.pending, h.harmless⟩⟩

/-- Every fetch identifies its events, a window tells their types, a rollback spares what it must,
and events are attempted in the order of the chain that is to be recovered. -/
def Undisturbed (canonical : Chain) (p : Pipeline × List Row) : RecoveryMove → Prop
  | .index (.fetch poll) => ∀ response ∈ poll.response cfg chain p.1.db,
    Identified p.1.db (rowsOf response.events)
  | .index (.select _) => True
  | .index (.attempt faults) => faults = [] ∧ ∀ row ∈ p.1.batch.head?, ∀ earlier ∈ p.2,
    canonical.Earlier earlier.origin row.origin
  | .pass contract answers =>
    let q := searched cfg contract answers p.1.db
    Spared cfg chain contract answers p.1 ∧ Identified q.2 (windowRows cfg answers q.1) ∧
      ∀ row ∈ windowRows cfg answers q.1, row.Faithful

instance (canonical : Chain) (p : Pipeline × List Row) : ∀ move,
    Decidable (Undisturbed cfg chain canonical p move)
  | .index (.fetch poll) => inferInstanceAs (Decidable (∀ response ∈ poll.response cfg chain p.1.db,
      Identified p.1.db (rowsOf response.events)))
  | .index (.select _) => inferInstanceAs (Decidable True)
  | .index (.attempt faults) => inferInstanceAs (Decidable (faults = [] ∧
      ∀ row ∈ p.1.batch.head?, ∀ earlier ∈ p.2, canonical.Earlier earlier.origin row.origin))
  | .pass contract answers => inferInstanceAs (Decidable (_ ∧ _ ∧
      ∀ row ∈ windowRows cfg answers (searched cfg contract answers p.1.db).1, row.Faithful))

end

/-! ### Rows -/

/-- The reference is the part of the chain within some ledgers. -/
def Chain.PartOf (ref chain : Chain) (within : Nat → Prop) : Prop :=
  ∀ e, e ∈ ref.events ↔ e ∈ chain.events ∧ within e.ledger

/-- Every row has a key and an event of its own and says what the event says, and within the ledgers
of the reference only its events have rows. -/
structure Kept (cfg : Config) (ref : Chain) (within : Nat → Prop) (t : Table Row) : Prop where
  keys : (t.rows.map Row.key).Nodup
  origins : (t.rows.map Row.origin).Nodup
  faithful : ∀ row ∈ t.rows, row.Faithful
  reconciled : ∀ row ∈ t.rows, row.origin.contract ∈ getReconciledContractIds cfg
  known : ∀ row ∈ t.rows, within row.ledger → row.origin ∈ ref.events

/-- What is stored, up to the checkpoints and within the ledgers of the reference. -/
structure Stored (cfg : Config) (ref : Chain) (within : Nat → Prop) (db : Db) : Prop where
  kept : Kept cfg ref within db.events
  filled : GapsFilled cfg ref db

variable {cfg : Config} {ref chain canonical : Chain} {within : Nat → Prop} {db : Db}
  {s : Pipeline} {parse : String → Payload} {contract : Contract} {answers : SyncAnswers}
  {rows : List Row} {row saved : Row} {t : Table Row}

theorem Chain.PartOf.of (h : ref.PartOf chain within) {e : ChainEvent} (he : e ∈ ref.of contract) :
    e ∈ chain.of contract := by
  obtain ⟨hm, hc⟩ := mem_filter.mp he
  exact mem_filter.mpr ⟨((h e).mp hm).1, hc⟩

theorem kept_empty : Kept cfg ref within .empty := by
  constructor <;> simp [Table.empty]

/-- Fetched rows are stored. -/
theorem Stored.persist (h : Stored cfg ref within db) (hp : ref.PartOf chain within)
    (hi : Identified db rows) (hf : ∀ row ∈ rows, row.Faithful)
    (hch : ∀ row ∈ rows, ∃ c ∈ getReconciledContractIds cfg, row.origin ∈ chain.of c) :
    Stored cfg ref within (db.persist rows) := by
  refine ⟨?_, h.filled.persist rows⟩
  constructor
  · exact Table.nodup_keys_insertAll h.kept.keys rows
  · exact Table.nodup_items_insertAll h.kept.origins
      (fun row hr other hot => (hi row hr other hot).mpr)
  · intro row hr
    rcases Table.mem_insertAll hr with hr | hr
    · exact h.kept.faithful row hr
    · exact hf row hr
  · intro row hr
    rcases Table.mem_insertAll hr with hr | hr
    · exact h.kept.reconciled row hr
    · obtain ⟨c, hc, ho⟩ := hch row hr
      rwa [of_decide_eq_true (mem_filter.mp ho).2]
  · intro row hr hw
    rcases Table.mem_insertAll hr with hr | hr
    · exact h.kept.known row hr hw
    · obtain ⟨c, -, ho⟩ := hch row hr
      refine (hp _).mpr ⟨mem_of_mem_filter ho, ?_⟩
      rwa [← (hf row hr).ledger]

/-! ### Polls -/

theorem faithful_rowsOf {poll : Poll} {response : EventsResponse}
    (h : poll.response cfg chain db = some response) :
    ∀ row ∈ rowsOf response.events, row.Faithful := by
  intro row hrw
  obtain ⟨r, hr, heq⟩ := mem_rowsOf hrw
  rw [heq, (response_truthful 0 h r hr).rpc]
  exact ⟨rfl, rfl, rfl⟩

theorem origin_rowsOf {poll : Poll} {response : EventsResponse}
    (h : poll.response cfg chain db = some response) :
    ∀ row ∈ rowsOf response.events,
      ∃ c ∈ getReconciledContractIds cfg, row.origin ∈ chain.of c := by
  intro row hrw
  obtain ⟨r, hr, heq⟩ := mem_rowsOf hrw
  have hm := (response_truthful 0 h r hr).mem
  unfold vaultEvents at hm
  cases hc : cfg.contractId with
  | none =>
    rw [hc] at hm
    exact absurd hm not_mem_nil
  | some c =>
    rw [hc] at hm
    refine ⟨c, ?_, heq ▸ hm⟩
    simp [getReconciledContractIds, hc]

theorem Stored.fetch (parse : String → Payload) (h : Stored cfg ref within s.db)
    (hp : ref.PartOf chain within) {poll : Poll}
    (hi : ∀ response ∈ poll.response cfg chain s.db,
      Identified s.db (rowsOf response.events)) :
    Stored cfg ref within (chainStep cfg chain parse s (.fetch poll)).db := by
  simp only [chainStep, batchStep]
  split_ifs
  · rcases pollContractEvents_cases cfg (poll.servers cfg chain) s.db with
      hs | ⟨response, hr, ha⟩
    · simp only [Pipeline.db, hs]
      exact h
    · simp only [Pipeline.db, ha]
      obtain ⟨hk, hf⟩ := h.persist hp (hi response hr)
        (faithful_rowsOf hr) (origin_rowsOf hr)
      exact ⟨hk, hf⟩
  · exact h

/-! ### Attempts -/

/-- The row with another status, which is not that of a new one. -/
def Row.SettledAs (row saved : Row) : Prop :=
  ∃ status retryCount, status ≠ .pending ∧
    saved = { row with status := status, retryCount := retryCount }

theorem Row.SettledAs.for_origin (h : row.SettledAs saved) :
    saved.key = row.key ∧ saved.origin = row.origin ∧ (row.Faithful → saved.Faithful) := by
  obtain ⟨status, retryCount, -, rfl⟩ := h
  exact ⟨rfl, rfl, fun h => { h with }⟩

theorem attempt_settles (cfg : Config) (chain : Chain) (parse : String → Payload)
    {rest : List Row} (hb : s.batch = row :: rest) :
    ∃ saved, row.SettledAs saved ∧ chainStep cfg chain parse s (.attempt []) =
      ⟨(s.backend.setViews (handledViews parse row [] s.backend.views)).saveEvent saved, rest⟩ := by
  unfold chainStep
  cases ho : outcome parse row [] s.backend with
  | processed =>
    exact ⟨row.processed, ⟨_, _, by simp, rfl⟩, attempt_eq hb ho⟩
  | failed =>
    refine ⟨row.retried, ⟨_, _, ?_, rfl⟩, attempt_eq hb ho⟩
    split_ifs <;> simp
  | aborted => exact absurd ho (outcome_run parse row s.backend)

theorem origins_save (hk : (t.rows.map Row.key).Nodup) (hrw : row ∈ t.rows)
    (hsv : row.SettledAs saved) :
    (t.save Row.key saved).rows.map Row.origin = t.rows.map Row.origin := by
  obtain ⟨hky, ho, -⟩ := hsv.for_origin
  simp only [Table.save, map_map]
  refine map_congr_left fun r hr => ?_
  simp only [Function.comp_apply]
  split_ifs with hs
  · rw [ho, inj_on_of_nodup_map hk hr hrw (hs.trans hky)]
  · rfl

theorem Kept.save (h : Kept cfg ref within t) (hrw : row ∈ t.rows)
    (hs : row.SettledAs saved) : Kept cfg ref within (t.save Row.key saved) := by
  obtain ⟨hk, ho, hf⟩ := hs.for_origin
  constructor
  · rw [Table.keys_save]
    exact h.keys
  · rw [origins_save h.keys hrw hs]
    exact h.origins
  all_goals
    intro r hr
    rcases Table.mem_save.mp hr with ⟨hr, -⟩ | ⟨rfl, -⟩
  · exact h.faithful r hr
  · exact hf (h.faithful row hrw)
  · exact h.reconciled r hr
  · exact ho ▸ h.reconciled row hrw
  · exact h.known r hr
  · rw [ho, show r.ledger = row.ledger from congrArg Prod.fst hk]
    exact h.known row hrw

/-- Every event that has a row keeps one. -/
theorem GapsFilled.save (h : GapsFilled cfg ref s.db) (hk : (s.rows.map Row.key).Nodup)
    (hrw : row ∈ s.rows) (hsv : row.SettledAs saved) (v : Views) :
    GapsFilled cfg ref ((s.backend.setViews v).saveEvent saved).db := by
  obtain ⟨hky, ho, -⟩ := hsv.for_origin
  intro c hc e he hle
  obtain ⟨r, hr, hf⟩ := h c hc e he hle
  by_cases hs : r.key = saved.key
  · obtain rfl : r = row := inj_on_of_nodup_map hk hr hrw (hs.trans hky)
    refine ⟨saved, Table.mem_save.mpr (.inr ⟨rfl, r, hr, hs⟩), ho.trans hf.1, ?_⟩
    exact (congrArg Prod.fst hky).trans hf.2
  · exact ⟨r, Table.mem_save_of_ne hr hs, hf⟩

/-! ### Passes -/

/-- The request for a window is answered in full. -/
theorem ToldAll.delivered {checkpoint : SyncCheckpoint}
    (h : ToldAll cfg chain contract answers checkpoint) (hp : ref.PartOf chain within)
    (hi : Identified db (windowRows cfg answers checkpoint)) :
    WindowDelivered cfg ref contract answers checkpoint db := by
  intro chainHead hh hlt e he hf hto
  have hr : windowRows cfg answers checkpoint =
      answers.gap.rows (windowEnd cfg checkpoint chainHead) := by
    simp [windowRows, Option.mem_def.mp hh, not_le.mpr hlt]
  obtain ⟨row, hrw, ho⟩ := h.all chainHead hh e (hp.of he) hf hto
  refine .inr ⟨row, hr ▸ hrw, fun other hot hk => ?_⟩
  rw [← hr] at hot
  have hs := (hi row hrw other hot).mp hk
  have hl : other.ledger = row.ledger := congrArg Prod.fst hk
  exact ⟨hs.trans ho, hl.trans ((h.about row hrw).2.trans (congrArg _ ho))⟩

theorem RollbackHarmless.part (h : RollbackHarmless cfg chain contract answers db)
    (hp : ref.PartOf chain within) : RollbackHarmless cfg ref contract answers db :=
  fun hf other ho hne e he => h hf other ho hne e (hp.of he)

/-- The search for a fork removes nothing, or what lies above the fork ledger. -/
theorem searched_cases (cfg : Config) (contract : Contract) (answers : SyncAnswers) (db : Db) :
    reorgFound (db.syncOf contract) answers = none ∧
        (searched cfg contract answers db).2.events = db.events ∨
      reorgFound (db.syncOf contract) answers ≠ none ∧
        (searched cfg contract answers db).2.events =
          db.events.retain (·.ledger ≤ forkLedgerOf cfg (db.syncOf contract)) ∧
        ∀ c, ((searched cfg contract answers db).2.syncOf c).lastIndexedLedger =
          if c = contract then forkLedgerOf cfg (db.syncOf contract)
          else (db.syncOf c).lastIndexedLedger := by
  unfold searched detectAndHandleReorg
  cases hf : reorgFound (db.syncOf contract) answers with
  | none => exact .inl ⟨rfl, rfl⟩
  | some hashes =>
    refine .inr ⟨Option.some_ne_none _, rfl, fun c => ?_⟩
    refine (congrArg SyncCheckpoint.lastIndexedLedger (syncOf_saveSync _ contract c _)).trans ?_
    split_ifs with hc
    · rfl
    · exact congrArg SyncCheckpoint.lastIndexedLedger (syncOf_saveSync_same db contract c)

theorem Kept.retain (h : Kept cfg ref within t) (keep : Row → Bool) :
    Kept cfg ref within (t.retain keep) where
  keys := (filter_sublist.map _).nodup h.keys
  origins := (filter_sublist.map _).nodup h.origins
  faithful row hr := h.faithful row (mem_of_mem_filter hr)
  reconciled row hr := h.reconciled row (mem_of_mem_filter hr)
  known row hr := h.known row (mem_of_mem_filter hr)

theorem Stored.searched (h : Stored cfg ref within db) (hp : ref.PartOf chain within)
    (hc : contract ∈ getReconciledContractIds cfg)
    (hh : RollbackHarmless cfg chain contract answers db) :
    Stored cfg ref within (searched cfg contract answers db).2 := by
  refine ⟨?_, detect_filled h.filled hc (hh.part hp)⟩
  rcases searched_cases cfg contract answers db with ⟨-, he⟩ | ⟨-, he, -⟩
  · rw [he]
    exact h.kept
  · rw [he]
    exact h.kept.retain _

theorem reconciled_of_searched (cfg : Config) (contract : Contract) (answers : SyncAnswers)
    (db : Db) (hu : cfg.rpcUrl = true) :
    runReconciliation cfg contract answers db = answers.chainHead.elim
      (searched cfg contract answers db).2
      (fun chainHead => fillWindow cfg contract answers chainHead
        (searched cfg contract answers db).1 (searched cfg contract answers db).2) := by
  unfold runReconciliation
  simp only [hu, Bool.true_eq_false, if_false]
  cases answers.chainHead <;> rfl

theorem events_runReconciliation (cfg : Config) (contract : Contract) (answers : SyncAnswers)
    (db : Db) (hu : cfg.rpcUrl = true) :
    (runReconciliation cfg contract answers db).events =
      ((searched cfg contract answers db).2.persist
        (windowRows cfg answers (searched cfg contract answers db).1)).events := by
  rw [reconciled_of_searched cfg contract answers db hu]
  unfold fillWindow windowRows
  cases answers.chainHead with
  | none => rfl
  | some chainHead =>
    simp only [Option.elim_some]
    split_ifs <;> rfl

end Stow.Indexer
