import Stow.Indexer.Forks

/-! Recovery from a fork: what is stored and what the read-models show, next to indexing the chain
from scratch. -/
namespace Stow.Indexer

open Stow.Lib Stow.Projection List

section

variable (parse : String → Payload)

def projectOne (m : ReadModels) (e : ChainEvent) : ReadModels :=
  if handledHere (e.decoded parse).topic then m else (e.decoded parse).applied m

/-- The read-models from scratch: every event once, in order. -/
def fromScratch (events : List ChainEvent) : ReadModels := events.foldl (projectOne parse) .empty

end

/-- A chain with the hashes of its ledgers. -/
structure History where
  chain : Chain
  hash : Nat → String

def Chain.upTo (chain : Chain) (ledger : Nat) : Chain where
  events := chain.events.filter (·.ledger ≤ ledger)
  numbered := fun e he => chain.numbered e (mem_of_mem_filter he)
  ordered := chain.ordered.sublist filter_sublist
  ids := (filter_sublist.map _).nodup chain.ids

/-- A fork, with what is done before it, from then to the pass that notices it, and later. -/
structure Reorg where
  old : History
  canonical : History
  forkPoint : Nat
  same_events : (old.chain.upTo forkPoint).events = (canonical.chain.upTo forkPoint).events
  same_hashes : ∀ ledger ≤ forkPoint, old.hash ledger = canonical.hash ledger
  before : List RecoveryMove
  between : List RecoveryMove
  contract : Contract
  answers : SyncAnswers
  later : List RecoveryMove

namespace Reorg

variable (cfg : Config) (parse : String → Payload) (r : Reorg)

/-- Runs while a chain is the one the node has, with the rows attempted. -/
def runOn (history : History) (p : Pipeline × List Row) (moves : List RecoveryMove) :
    Pipeline × List Row :=
  runFrom (watch (recoveryStep cfg history.chain parse) attemptNote) p moves

def forked : Pipeline × List Row := runOn cfg parse r.old (.started, []) r.before

def noticed : Pipeline × List Row := runOn cfg parse r.canonical (r.forked cfg parse) r.between

def ended : Pipeline × List Row :=
  runOn cfg parse r.canonical (r.noticed cfg parse) (.pass r.contract r.answers :: r.later)

/-- Every step meets a condition on it and on the chain of its time. -/
def Along (P : History → Pipeline × List Row → RecoveryMove → Prop) : Prop :=
  let steps := fun history : History => AllSteps
    (watch (recoveryStep cfg history.chain parse) attemptNote) (P history)
  steps r.old (.started, []) r.before ∧ steps r.canonical (r.forked cfg parse) r.between ∧
    steps r.canonical (r.noticed cfg parse) (.pass r.contract r.answers :: r.later)

instance (P : History → Pipeline × List Row → RecoveryMove → Prop)
    [∀ history p move, Decidable (P history p move)] : Decidable (r.Along cfg parse P) :=
  inferInstanceAs (Decidable (_ ∧ _ ∧ _))

/-- The pass finds another hash, and the fork is no deeper than it rolls back. -/
structure Detected : Prop where
  enabled : cfg.reconcileEnabled = true ∧ cfg.rpcUrl = true
  contract : r.contract ∈ getReconciledContractIds cfg
  found : reorgFound ((r.noticed cfg parse).1.db.syncOf r.contract) r.answers ≠ none
  depth : forkLedgerOf cfg ((r.noticed cfg parse).1.db.syncOf r.contract) ≤ r.forkPoint

instance : Decidable (r.Detected cfg parse) :=
  decidable_of_iff (_ ∧ _ ∧ _ ∧ _) ⟨fun h => ⟨h.1, h.2.1, h.2.2.1, h.2.2.2⟩,
    fun h => ⟨h.enabled, h.contract, h.found, h.depth⟩⟩

end Reorg

/-- Everything stored is applied, and every checkpoint has reached a ledger. -/
structure Settled (cfg : Config) (ledger : Nat) (s : Pipeline) : Prop where
  applied : ∀ row ∈ s.rows, row.status = .processed
  reached : ∀ contract ∈ getReconciledContractIds cfg,
    ledger ≤ (s.db.syncOf contract).lastIndexedLedger

instance (cfg : Config) (ledger : Nat) (s : Pipeline) : Decidable (Settled cfg ledger s) :=
  decidable_of_iff (_ ∧ _) ⟨fun h => ⟨h.1, h.2⟩, fun h => ⟨h.applied, h.reached⟩⟩

/-- The rows up to a ledger are the events of the reconciled contracts on the chain, and the
read-models are those of an index from scratch. What is stored beyond the ledger is part of it. -/
structure Recovered (cfg : Config) (chain : Chain) (parse : String → Payload) (ledger : Nat)
    (s : Pipeline) : Prop where
  stored : ((s.rows.filter (·.ledger ≤ ledger)).map Row.origin).Perm (chain.events.filter
    fun e => e.contract ∈ getReconciledContractIds cfg ∧ e.ledger ≤ ledger)
  projected : s.backend.views.models = fromScratch parse (chain.events.filter
    fun e => e.contract ∈ getReconciledContractIds cfg ∧ (e.ledger ≤ ledger ∨ s.db.Has e))

/-! ### What was attempted -/

/-- What is no longer pending was attempted once, in the order of the chain, and the read-models
come from that. -/
structure Worked (canonical : Chain) (parse : String → Payload) (p : Pipeline × List Row) :
    Prop where
  inHand : ∀ row ∈ p.1.batch, row ∈ p.1.rows ∧ row.status = .pending
  distinct : (p.1.batch.map Row.key).Nodup
  attempted : (p.2.map Row.origin).Perm
    ((p.1.rows.filter (·.status ≠ .pending)).map Row.origin)
  ordered : (p.2.map Row.origin).Pairwise canonical.Earlier
  models : p.1.backend.views.models = fromScratch parse (p.2.map Row.origin)

variable {cfg : Config} {ref chain canonical : Chain} {within : Nat → Prop} {hash : Nat → String}
  {s : Pipeline} {parse : String → Payload} {contract : Contract} {answers : SyncAnswers}
  {row : Row} {attempted : List Row} {p : Pipeline × List Row}

section

variable (h : Worked canonical parse (s, attempted))

include h

/-- The table of events changes, and only in rows that are pending and not in hand. -/
theorem Worked.setDb {db : Db} (hb : ∀ row ∈ s.batch, row ∈ s.rows → row ∈ db.events.rows)
    (hs : db.events.rows.filter (·.status ≠ .pending) = s.rows.filter (·.status ≠ .pending)) :
    Worked canonical parse (s.setDb db, attempted) where
  inHand row hr := ⟨hb row hr (h.inHand row hr).1, (h.inHand row hr).2⟩
  distinct := h.distinct
  attempted := by
    show (attempted.map Row.origin).Perm
      ((db.events.rows.filter (·.status ≠ .pending)).map Row.origin)
    rw [hs]
    exact h.attempted
  ordered := h.ordered
  models := h.models

theorem Worked.fetch (poll : Poll) :
    Worked canonical parse (chainStep cfg chain parse s (.fetch poll), attempted) := by
  simp only [chainStep, batchStep]
  split_ifs with hb
  · rcases pollContractEvents_cases cfg (poll.servers cfg chain) s.db with
      hs | ⟨response, -, ha⟩
    · simp only [Pipeline.db, hs]
      exact h
    · simp only [Pipeline.db, ha]
      refine h.setDb (fun row hr hm => Table.mem_insertAll_of_mem hm) ?_
      refine Table.filter_insertAll fun row hr => ?_
      obtain ⟨r, -, heq⟩ := mem_rowsOf hr
      rw [heq]
      rfl
  · exact h

theorem Worked.select (hk : (s.rows.map Row.key).Nodup) (rank : Row → Nat) :
    Worked canonical parse (chainStep cfg chain parse s (.select rank), attempted) := by
  simp only [chainStep, batchStep]
  split_ifs
  · exact { h with
      inHand := fun row hr => mem_pendingBatch hr, distinct := nodup_pendingBatch hk }
  · exact h

end

theorem models_projectOne (h : row.Faithful) (v : Views) :
    (handledViews parse row [] v).models = projectOne parse v.models row.origin := by
  rw [models_handledViews, projectOne, ChainEvent.decoded, Row.decoded, h.eventType, h.data]
  rfl

theorem Worked.attempt {rest : List Row} (h : Worked canonical parse (s, attempted))
    (hk : (s.rows.map Row.key).Nodup) (hft : row.Faithful)
    (hb : s.batch = row :: rest)
    (ho : ∀ earlier ∈ attempted, canonical.Earlier earlier.origin row.origin) :
    Worked canonical parse (chainStep cfg chain parse s (.attempt []), attempted ++ [row]) := by
  obtain ⟨saved, hsv, hsp⟩ := attempt_settles cfg chain parse hb
  obtain ⟨hky, hor, -⟩ := hsv.for_origin
  obtain ⟨hrw, hpn⟩ := h.inHand row (hb ▸ mem_cons_self)
  have hd := h.distinct
  rw [hb, map_cons, nodup_cons] at hd
  rw [hsp]
  constructor
  · intro r hr
    obtain ⟨hm, hs⟩ := h.inHand r (hb ▸ mem_cons_of_mem _ hr)
    refine ⟨Table.mem_save_of_ne hm fun heq => ?_, hs⟩
    exact hd.1 ((heq.trans hky) ▸ mem_map_of_mem hr)
  · exact hd.2
  · have hst : saved.status ≠ .pending := by
      obtain ⟨status, retryCount, hs, rfl⟩ := hsv
      exact hs
    have hp := (Table.filter_save (p := (·.status ≠ .pending)) hk hrw hky.symm
      (by simp [hpn]) (by simp [hst])).map Row.origin
    rw [map_cons, hor] at hp
    rw [map_append, map_singleton]
    exact (perm_append_singleton _ _).trans ((h.attempted.cons _).trans hp.symm)
  · rw [map_append, pairwise_append]
    refine ⟨h.ordered, pairwise_singleton _ _, ?_⟩
    intro e he f hf
    obtain ⟨earlier, her, rfl⟩ := mem_map.mp he
    rw [mem_singleton.mp hf]
    exact ho earlier her
  · show (handledViews parse row [] s.backend.views).models = _
    rw [models_projectOne hft, map_append, fromScratch, foldl_append]
    exact congrArg (fun m => projectOne parse m row.origin) h.models

theorem pending_windowRows {checkpoint : SyncCheckpoint}
    (h : row ∈ windowRows cfg answers checkpoint) : row.status = .pending := by
  have hg : ∀ {toLedger : Nat} {raw : List (Option Record)},
      row ∈ raw.filterMap (gapRow toLedger) → row.status = .pending := by
    intro toLedger raw hm
    obtain ⟨object, -, ho⟩ := mem_filterMap.mp hm
    unfold gapRow at ho
    split at ho
    · cases ho
    · split at ho
      · split_ifs at ho
        exact (Option.some.inj ho) ▸ rfl
      · cases ho
  unfold windowRows at h
  split at h
  · split_ifs at h
    · exact absurd h not_mem_nil
    · cases ha : answers.gap <;> rw [ha] at h
      case httpError | rpcError => exact absurd h not_mem_nil
      case thrown | events => exact hg h
  · exact absurd h not_mem_nil

theorem Worked.pass (h : Worked canonical parse (s, attempted)) (hu : cfg.rpcUrl = true)
    (hsp : Spared cfg chain contract answers s) :
    Worked canonical parse (s.setDb (runReconciliation cfg contract answers s.db), attempted) := by
  have he := events_runReconciliation cfg contract answers s.db hu
  have hn : ∀ (t : Table Row) (checkpoint : SyncCheckpoint),
      (t.insertAll Row.key (windowRows cfg answers checkpoint)).rows.filter (·.status ≠ .pending) =
        t.rows.filter (·.status ≠ .pending) := fun t checkpoint =>
    Table.filter_insertAll fun row hrw => by simp [pending_windowRows hrw]
  rcases searched_cases cfg contract answers s.db with ⟨-, hs⟩ | ⟨hf, hr, -⟩
  · refine h.setDb ?_ ?_
    · intro row _ hm
      rw [he]
      exact Table.mem_insertAll_of_mem (hs ▸ hm)
    · rw [he]
      exact (hn _ _).trans (by rw [hs])
  · refine h.setDb ?_ ?_
    · rw [hsp.idle hf]
      exact fun _ hrw => absurd hrw not_mem_nil
    · rw [he]
      refine (hn _ _).trans ?_
      rw [hr]
      simp only [Table.retain, filter_filter]
      refine filter_congr fun row hrw => ?_
      by_cases hp : row.status = .pending
      · simp [hp]
      · have hle : row.ledger ≤ forkLedgerOf cfg (s.db.syncOf contract) :=
          not_lt.mp fun hlt => hp (hsp.pending hf row hrw hlt)
        simp [hle]

/-! ### Steps and runs -/

structure Tracked (cfg : Config) (ref : Chain) (within : Nat → Prop) (canonical : Chain)
    (parse : String → Payload) (p : Pipeline × List Row) : Prop where
  stored : Stored cfg ref within p.1.db
  worked : Worked canonical parse p

theorem tracked_started : Tracked cfg ref within canonical parse (.started, []) where
  stored := by
    refine ⟨kept_empty, fun c _ e he hle => ?_⟩
    have hp := ref.numbered e (mem_of_mem_filter he)
    have hz : e.ledger ≤ 0 := hle
    omega
  worked := ⟨fun _ hr => absurd hr not_mem_nil, nodup_nil, .nil, .nil, rfl⟩

theorem Tracked.index (h : Tracked cfg ref within canonical parse p)
    (hp : ref.PartOf chain within) {move : PollMove Poll}
    (hm : Undisturbed cfg chain canonical p (.index move)) :
    Tracked cfg ref within canonical parse
      (watch (recoveryStep cfg chain parse) attemptNote p (.index move)) := by
  obtain ⟨s, attempted⟩ := p
  cases move with
  | fetch poll => exact ⟨h.stored.fetch parse hp hm, h.worked.fetch poll⟩
  | select rank =>
    refine ⟨?_, h.worked.select h.stored.kept.keys rank⟩
    simp only [watch, recoveryStep, chainStep, batchStep]
    split_ifs <;> exact h.stored
  | attempt faults =>
    obtain ⟨rfl, ho⟩ := hm
    simp only [watch, recoveryStep, attemptNote]
    cases hb : s.batch with
    | nil =>
      have hs : chainStep cfg chain parse s (.attempt []) = s := attempt_of_nil hb
      rw [hs, head?_nil, Option.toList_none, append_nil]
      exact h
    | cons row rest =>
      have hr := (h.worked.inHand row (hb ▸ mem_cons_self)).1
      refine ⟨?_, h.worked.attempt h.stored.kept.keys (h.stored.kept.faithful row hr) hb
        (ho row (by rw [hb]; rfl))⟩
      obtain ⟨saved, hsv, hs⟩ := attempt_settles cfg chain parse hb
      rw [hs]
      exact ⟨h.stored.kept.save hr hsv,
        h.stored.filled.save h.stored.kept.keys hr hsv _⟩

/-- A pass keeps track, once its search for a fork does: its window is filled from the checkpoint
that the search has left. -/
theorem Tracked.pass (hw : Worked canonical parse p)
    (hs : Stored cfg ref within (searched cfg contract answers p.1.db).2)
    (hp : ref.PartOf chain within) (hu : cfg.rpcUrl = true)
    (hc : contract ∈ getReconciledContractIds cfg)
    (hh : Honest cfg chain hash p (.pass contract answers))
    (hm : Undisturbed cfg chain canonical p (.pass contract answers)) :
    Tracked cfg ref within canonical parse
      (p.1.setDb (runReconciliation cfg contract answers p.1.db), p.2) where
  stored := by
    obtain ⟨-, hi, hf⟩ := hm
    change Stored cfg ref within (runReconciliation cfg contract answers p.1.db)
    constructor
    · rw [events_runReconciliation cfg contract answers p.1.db hu]
      exact (hs.persist hp hi hf (fun row hr => ⟨contract, hc, (hh.2.about row hr).1⟩)).kept
    · rw [reconciled_of_searched cfg contract answers p.1.db hu]
      cases ht : answers.chainHead with
      | none => exact hs.filled
      | some chainHead =>
        exact fillWindow_filled hs.filled hc (syncOf_searched cfg contract answers p.1.db) ht
          (hh.2.delivered hp hi)
  worked := hw.pass hu hm.1

theorem tracked_step (hp : ref.PartOf chain within) (p : Pipeline × List Row)
    (move : RecoveryMove) (h : Tracked cfg ref within canonical parse p)
    (hm : Honest cfg chain hash p move ∧ Undisturbed cfg chain canonical p move) :
    Tracked cfg ref within canonical parse
      (watch (recoveryStep cfg chain parse) attemptNote p move) := by
  cases move with
  | index move => exact h.index hp hm.2
  | pass contract answers =>
    simp only [watch, recoveryStep, attemptNote]
    split_ifs with hr
    · cases hu : cfg.rpcUrl with
      | false =>
        have hs : runReconciliation cfg contract answers p.1.db =
            p.1.db.saveSync contract (p.1.db.syncOf contract) := by
          simp [runReconciliation, hu]
        rw [hs]
        exact ⟨⟨h.stored.kept, h.stored.filled.saveSync (h.stored.filled contract hr.2)⟩,
          h.worked.setDb (fun _ _ hmm => hmm) rfl⟩
      | true =>
        exact .pass h.worked (h.stored.searched hp hr.2 hm.2.1.harmless) hp hu hr.2
          hm.1 hm.2
    · exact h

/-- The rollback to below the fork leaves nothing of the old chain. -/
theorem Stored.rolled_back {db : Db} {forkPoint : Nat}
    (h : Stored cfg (chain.upTo forkPoint) (· ≤ forkPoint) db)
    (hcn : contract ∈ getReconciledContractIds cfg)
    (hh : RollbackHarmless cfg chain contract answers db)
    (hf : reorgFound (db.syncOf contract) answers ≠ none)
    (hd : forkLedgerOf cfg (db.syncOf contract) ≤ forkPoint) :
    Stored cfg chain (fun _ => True) (Indexer.searched cfg contract answers db).2 := by
  have hp : (chain.upTo forkPoint).PartOf chain (· ≤ forkPoint) := fun e => by
    simp [Chain.upTo]
  obtain ⟨hk, hfl⟩ := h.searched hp hcn hh
  rcases searched_cases cfg contract answers db with ⟨hn, -⟩ | ⟨-, hev, hl⟩
  · exact absurd hn hf
  · constructor
    · refine { hk with known := fun row hr _ => ?_ }
      refine mem_of_mem_filter (hk.known row hr ?_)
      rw [hev] at hr
      exact (of_decide_eq_true (mem_filter.mp hr).2).trans hd
    · intro c hc e he hle
      -- no checkpoint covers an event above the fork
      have hb : e.ledger ≤ forkPoint := by
        rw [hl c] at hle
        split_ifs at hle with hs
        · exact hle.trans hd
        · exact (hh hf c hc hs e he hle).trans hd
      obtain ⟨hm, hof⟩ := mem_filter.mp he
      refine hfl c hc e (mem_filter.mpr ⟨?_, hof⟩) hle
      exact mem_filter.mpr ⟨hm, decide_eq_true hb⟩

theorem Reorg.tracked_ended {r : Reorg}
    (hh : r.Along cfg parse fun history => Honest cfg history.chain history.hash)
    (hm : r.Along cfg parse fun history => Undisturbed cfg history.chain r.canonical.chain)
    (hd : r.Detected cfg parse) :
    Tracked cfg r.canonical.chain (fun _ => True) r.canonical.chain parse
      (r.ended cfg parse) := by
  have hold : (r.canonical.chain.upTo r.forkPoint).PartOf r.old.chain (· ≤ r.forkPoint) := by
    intro e
    rw [← r.same_events]
    simp [Chain.upTo]
  have hnw : (r.canonical.chain.upTo r.forkPoint).PartOf r.canonical.chain (· ≤ r.forkPoint) := by
    intro e
    simp [Chain.upTo]
  have ha : r.canonical.chain.PartOf r.canonical.chain (fun _ => True) := fun e => by simp
  -- up to the detection the tables are right as far as the two chains agree
  have hf : Tracked cfg (r.canonical.chain.upTo r.forkPoint) (· ≤ r.forkPoint)
      r.canonical.chain parse (r.forked cfg parse) :=
    invariant_run (tracked_step hold) tracked_started (hh.1.and hm.1)
  have hn : Tracked cfg (r.canonical.chain.upTo r.forkPoint) (· ≤ r.forkPoint)
      r.canonical.chain parse (r.noticed cfg parse) :=
    invariant_run (tracked_step hnw) hf (hh.2.1.and hm.2.1)
  obtain ⟨⟨hhs, hhn⟩, hmv, hms⟩ :=
    And.intro hh.2.2 hm.2.2
  have hp : Tracked cfg r.canonical.chain (fun _ => True) r.canonical.chain parse
      (watch (recoveryStep cfg r.canonical.chain parse) attemptNote (r.noticed cfg parse)
        (.pass r.contract r.answers)) := by
    simp only [watch, recoveryStep, attemptNote, hd.enabled.1, hd.contract, and_self,
      if_true]
    exact .pass hn.worked (hn.stored.rolled_back hd.contract
      hmv.1.harmless hd.found hd.depth) ha hd.enabled.2
      hd.contract hhs hmv
  have he := invariant_run (tracked_step ha) hp (hhn.and hms)
  exact he

/-! ### The chain from scratch -/

theorem Chain.nodup (chain : Chain) : chain.events.Nodup := List.Nodup.of_map _ chain.ids

theorem not_earlier_both {events : List ChainEvent} {e f : ChainEvent} (hn : events.Nodup)
    (h : [e, f].Sublist events) (h' : [f, e].Sublist events) : False := by
  induction events with
  | nil => cases h
  | cons x xs ih =>
    obtain ⟨hx, hxs⟩ := nodup_cons.mp hn
    cases h with
    | cons _ h =>
      cases h' with
      | cons _ h' => exact ih hxs h h'
      | cons_cons _ h' => exact hx (h.subset (by simp))
    | cons_cons _ h =>
      cases h' with
      | cons _ h' => exact hx (h'.subset (by simp))
      | cons_cons _ h' => exact hx (h.subset (by simp))

/-- The events that the rows with a property are for. -/
theorem Stored.perm_events {db : Db} (h : Stored cfg chain (fun _ => True) db) {q : Row → Bool}
    {P : ChainEvent → Prop} [DecidablePred P]
    (hr : ∀ row ∈ db.events.rows, q row = true ↔ P row.origin)
    (hh : ∀ e ∈ chain.events, e.contract ∈ getReconciledContractIds cfg → P e → db.Has e) :
    ((db.events.rows.filter q).map Row.origin).Perm
      (chain.events.filter fun e => e.contract ∈ getReconciledContractIds cfg ∧ P e) := by
  have hn : ((db.events.rows.filter q).map Row.origin).Nodup :=
    (filter_sublist.map Row.origin).nodup h.kept.origins
  refine (perm_ext_iff_of_nodup hn (chain.nodup.filter _)).mpr fun e => ?_
  simp only [mem_map, mem_filter, decide_eq_true_eq]
  constructor
  · rintro ⟨row, ⟨hm, hq⟩, rfl⟩
    exact ⟨h.kept.known row hm trivial, h.kept.reconciled row hm, (hr row hm).mp hq⟩
  · rintro ⟨hc, hcn, hP⟩
    obtain ⟨row, hm, rfl, -⟩ := hh e hc hcn hP
    exact ⟨row, ⟨hm, (hr row hm).mpr hP⟩, rfl⟩

theorem Tracked.recovered {ledger : Nat} (h : Tracked cfg chain (fun _ => True) chain parse p)
    (hs : Settled cfg ledger p.1) : Recovered cfg chain parse ledger p.1 := by
  have hl : ∀ row ∈ p.1.rows, row.ledger = row.origin.ledger :=
    fun row hr => (h.stored.kept.faithful row hr).ledger
  have hh : ∀ e ∈ chain.events, e.contract ∈ getReconciledContractIds cfg → e.ledger ≤ ledger →
      p.1.db.Has e := fun e he hc hle =>
    h.stored.filled _ hc e (mem_filter.mpr ⟨he, by simp⟩) (hle.trans (hs.reached _ hc))
  constructor
  · refine h.stored.perm_events (fun row hr => ?_) hh
    rw [decide_eq_true_iff, hl row hr]
  · rw [h.worked.models]
    refine congrArg _ ((h.worked.attempted.trans (h.stored.perm_events ?_ ?_)).eq_of_pairwise
      ?_ h.worked.ordered ?_)
    · intro row hr
      refine iff_of_true (by simp [hs.applied row hr]) ?_
      exact .inr ⟨row, hr, rfl, hl row hr⟩
    · intro e he hc hst
      exact hst.elim (hh e he hc) id
    · intro e f _ _ hef hfe
      exact (not_earlier_both chain.nodup hef hfe).elim
    · exact (pairwise_iff_forall_sublist.mpr fun hsb => hsb).sublist filter_sublist

/-- After a fork no deeper than the rollback, with every answer true and complete, the tables are
those of an index from scratch once everything is applied, if no rollback removed what was applied
or what another contract's checkpoint covers, keys identified the events, windows told their types,
and the events were applied in the order of the chain. -/
theorem reorg_recovered {cfg : Config} {parse : String → Payload} {r : Reorg} {ledger : Nat}
    (hhonest : r.Along cfg parse fun history => Honest cfg history.chain history.hash)
    (hdetected : r.Detected cfg parse) (hsettled : Settled cfg ledger (r.ended cfg parse).1)
    (hmoves : r.Along cfg parse fun history => Undisturbed cfg history.chain r.canonical.chain) :
    Recovered cfg r.canonical.chain parse ledger (r.ended cfg parse).1 :=
  (Reorg.tracked_ended hhonest hmoves hdetected).recovered hsettled

/-! ### Forks -/

/-- Two contracts, and rollbacks by four ledgers. -/
def fourBack : Config := ⟨true, some 1, some 2, true, none, some 4⟩

/-- The hashes of a chain that leaves the other one behind a ledger. -/
def branchHash (forkPoint ledger : Nat) : String :=
  if ledger ≤ forkPoint then ledgerHash ledger
  else String.ofList (replicate (ledger + 1) 'x')

/-- The answers of a node that has everything and tells the types. -/
def fullAnswers (history : History) (contract last start chainHead : Nat) : SyncAnswers :=
  ⟨some (history.hash last), some (history.hash (last - 4)), some chainHead,
    .events (((history.chain.of contract).filter (start < ·.ledger)).map fun e =>
      some { e.record with type := e.topic.head? }),
    some (history.hash chainHead)⟩

def fullPass (history : History) (contract last start chainHead : Nat) : RecoveryMove :=
  .pass contract (fullAnswers history contract last start chainHead)

/-- A poll that fetches everything up to a ledger and attempts one event. -/
def fullPoll (tip : Nat) : List RecoveryMove :=
  [.index (.fetch ⟨[.page 200 tip true], tip⟩), .index (.select fun _ => 0), .index (.attempt [])]

def paidIn : ChainEvent := ⟨"0001", 1, 2, ["deposit"], "in", "aa"⟩

/-- A deposit that only the old chain has. -/
def oldBranch : History where
  chain := ⟨[paidIn, ⟨"0002", 1, 8, ["deposit"], "in", "bb"⟩], by decide, by decide, by decide⟩
  hash := ledgerHash

/-- The chain has a withdrawal in its place. -/
def newBranch : History where
  chain := ⟨[paidIn, ⟨"0003", 1, 8, ["withdraw"], "out", "cc"⟩], by decide, by decide, by decide⟩
  hash := branchHash 7

/-- The fork is noticed while the event that is gone waits to be applied. -/
def noticedInTime : Reorg where
  old := oldBranch
  canonical := newBranch
  forkPoint := 7
  same_events := by decide
  same_hashes := fun _ hl => (if_pos hl).symm
  before := fullPoll 2 ++ [fullPass oldBranch 1 0 0 5, fullPass oldBranch 2 0 0 5,
    fullPass oldBranch 1 5 5 9]
  between := [fullPass newBranch 2 5 5 9]
  contract := 1
  answers := fullAnswers newBranch 1 9 5 9
  later := [.index (.select fun _ => 0), .index (.attempt [])]

/-- The withdrawal takes the place of the deposit. -/
theorem noticedInTime_recovered :
    noticedInTime.Detected fourBack inAndOut ∧
      Recovered fourBack newBranch.chain inAndOut 9 (noticedInTime.ended fourBack inAndOut).1 :=
  have h : noticedInTime.Detected fourBack inAndOut := by decide +kernel
  ⟨h, reorg_recovered (by decide +kernel) h (by decide +kernel) (by decide +kernel)⟩

/-- A deposit that is on both chains. -/
def paidInLate : Chain :=
  ⟨[⟨"0001", 1, 8, ["deposit"], "in", "aa"⟩], by decide, by decide, by decide⟩

/-- The deposit is polled and applied, and both contracts are reconciled. After the fork both are
reconciled again and the chain is polled again. -/
def appliedAgain : Reorg where
  old := ⟨paidInLate, ledgerHash⟩
  canonical := ⟨paidInLate, branchHash 8⟩
  forkPoint := 8
  same_events := rfl
  same_hashes := fun _ hl => (if_pos hl).symm
  before := fullPoll 9 ++ [fullPass ⟨paidInLate, ledgerHash⟩ 1 0 0 9,
    fullPass ⟨paidInLate, ledgerHash⟩ 2 0 0 9]
  between := []
  contract := 1
  answers := fullAnswers ⟨paidInLate, branchHash 8⟩ 1 9 5 9
  later := fullPass ⟨paidInLate, branchHash 8⟩ 2 9 5 9 :: fullPoll 9

/-- A harvest that is on both chains. -/
def harvestedEarly : Chain :=
  ⟨[⟨"0001", 2, 7, ["harvested"], "gain", "aa"⟩], by decide, by decide, by decide⟩

/-- The fork comes between the passes over the two contracts. -/
def passedBetween : Reorg where
  old := ⟨harvestedEarly, ledgerHash⟩
  canonical := ⟨harvestedEarly, branchHash 8⟩
  forkPoint := 8
  same_events := rfl
  same_hashes := fun _ hl => (if_pos hl).symm
  before := [fullPass ⟨harvestedEarly, ledgerHash⟩ 1 0 0 7,
    fullPass ⟨harvestedEarly, ledgerHash⟩ 2 0 0 7, fullPass ⟨harvestedEarly, ledgerHash⟩ 1 7 7 9]
  between := [fullPass ⟨harvestedEarly, branchHash 8⟩ 2 7 7 9]
  contract := 1
  answers := fullAnswers ⟨harvestedEarly, branchHash 8⟩ 1 9 5 9
  later := [fullPass ⟨harvestedEarly, branchHash 8⟩ 2 9 9 9]

/-- In the first run the deposit of 100 comes to a balance of 200. In the second the harvest is
deleted with what lies above ledger 5 and is not fetched again. -/
theorem recovery_incomplete :
    (appliedAgain.Along fourBack inAndOut
        (fun history => Honest fourBack history.chain history.hash) ∧
      appliedAgain.Detected fourBack inAndOut ∧
      Settled fourBack 9 (appliedAgain.ended fourBack inAndOut).1 ∧
      ¬Recovered fourBack paidInLate inAndOut 9 (appliedAgain.ended fourBack inAndOut).1) ∧
    passedBetween.Along fourBack inAndOut
        (fun history => Honest fourBack history.chain history.hash) ∧
      passedBetween.Detected fourBack inAndOut ∧
      Settled fourBack 9 (passedBetween.ended fourBack inAndOut).1 ∧
      ¬Recovered fourBack harvestedEarly inAndOut 9 (passedBetween.ended fourBack inAndOut).1 := by
  refine ⟨⟨by decide +kernel, by decide +kernel, by decide +kernel, fun h => ?_⟩,
    by decide +kernel, by decide +kernel, by decide +kernel, fun h => ?_⟩
  · have hb := congrArg (fun m : ReadModels => m.balances (.address 2)) h.projected
    revert hb
    decide +kernel
  · have hs := h.stored
    revert hs
    decide +kernel

end Stow.Indexer
