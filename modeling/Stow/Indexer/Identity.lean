import Stow.Indexer.Checkpoint

/-! One row for each event, over every way a ledger can be fetched again. -/
namespace Stow.Indexer

open Stow.Lib List

variable {cfg : Config}

/-- No event has two rows, and none was taken for another. -/
def Db.StoredOnce (db : Db) : Prop := db.events.StoredOnce Row.origin

/-- The row is in the ledger of its event, and that ledger has no row yet, or the one in its place
is of the same event. -/
def Db.Fits (db : Db) (row : Row) : Prop :=
  row.origin.ledger = row.ledger ∧ ((∀ r ∈ db.events.rows, r.ledger ≠ row.ledger) ∨
    ∃ r ∈ db.events.rows, r.key = row.key ∧ r.origin = row.origin)

instance (db : Db) (row : Row) : Decidable (db.Fits row) := inferInstanceAs (Decidable (_ ∧ _))

/-- The rows fit, no event comes twice, and no two come under one number in a ledger. -/
structure Db.Takes (db : Db) (rows : List Row) : Prop where
  events : (rows.map Row.origin).Nodup
  places : (rows.map Row.key).Nodup
  fits : ∀ row ∈ rows, db.Fits row

/-- The rows for a gap, up to the head of the chain. -/
def SyncAnswers.rows (answers : SyncAnswers) : List Row :=
  answers.gap.rows (answers.chainHead.getD 0)

/-- What a call is answered fits the rows. A backfill is answered by events from the ledger on that
it asks for, and all answers of a reconciliation count together. -/
def Fitting (cfg : Config) (db : Db) : Move → Prop
  | .poll servers => ∀ response,
    getEvents cfg (startLedgerOf db.lastProcessed) .default servers = some response →
      db.Takes (rowsOf response.events)
  | .reindex _ => True
  | .backfill fromLedger toLedger fetches => ∀ servers ∈ fetches, ∀ cursor response,
    getEvents cfg cursor .default servers = some response →
      (∀ e ∈ response.events, cursor ≤ e.ledger) ∧
      db.Takes (rowsOf (response.events.filter
        fun e => fromLedger ≤ e.ledger && e.ledger ≤ toLedger))
  | .reconcile answers => db.Takes (answers.flatMap SyncAnswers.rows)

/-! ### What each writer keeps -/

/-- Each event has one row, and all rows are of one kind. -/
structure KeptOnce (P : Row → Prop) (t : Table Row) : Prop where
  keys : (t.rows.map Row.key).Nodup
  once : t.StoredOnce Row.origin
  all : ∀ row ∈ t.rows, P row

def Row.Placed (row : Row) : Prop := row.origin.ledger = row.ledger

variable {db : Db} {rows : List Row} {P : Row → Prop}

/-- What fits agrees with what is there. -/
theorem KeptOnce.agree (h : KeptOnce Row.Placed db.events) (ht : db.Takes rows) :
    Table.Agree Row.key Row.origin fun r => r ∈ db.events.rows ∨ r ∈ rows := by
  have hsame {l : List Row} (hk : (l.map Row.key).Nodup) (ho : (l.map Row.origin).Nodup)
      (a b : Row) (ha : a ∈ l) (hb : b ∈ l) : a.key = b.key ↔ a.origin = b.origin :=
    ⟨fun he => congrArg _ (inj_on_of_nodup_map hk ha hb he),
      fun he => congrArg _ (inj_on_of_nodup_map ho ha hb he)⟩
  have hnew (r row : Row) (hr : r ∈ db.events.rows) (hrow : row ∈ rows) :
      r.key = row.key ↔ r.origin = row.origin := by
    obtain ⟨hl, hno | ⟨old, hold, hk, ho⟩⟩ := ht.fits row hrow
    · have hne := hno r hr
      refine iff_of_false (fun hk => hne (congrArg Prod.fst hk)) fun heq => hne ?_
      rw [← h.all r hr, heq, hl]
    · rw [← hk, ← ho]
      exact hsame h.keys h.once.distinct r old hr hold
  rintro a b (ha | ha) (hb | hb)
  · exact hsame h.keys h.once.distinct a b ha hb
  · exact hnew a b ha hb
  · rw [eq_comm, hnew b a hb ha, eq_comm]
  · exact hsame ht.places ht.events a b ha hb

theorem KeptOnce.persist (h : KeptOnce P db.events) (ha : Table.Agree Row.key Row.origin P)
    (hrows : ∀ row ∈ rows, P row) : KeptOnce P (db.persist rows).events where
  keys := Table.nodup_keys_insertAll h.keys rows
  once := h.once.insertAll ha h.all hrows
  all r hr := (Table.mem_insertAll hr).elim (h.all r) (hrows r)

theorem KeptOnce.placed (h : KeptOnce Row.Placed db.events) (ht : db.Takes rows) {t : Table Row}
    (hk : KeptOnce (fun r => r ∈ db.events.rows ∨ r ∈ rows) t) : KeptOnce Row.Placed t :=
  ⟨hk.keys, hk.once, fun r hr => (hk.all r hr).elim (h.all r) fun hr => (ht.fits r hr).1⟩

theorem KeptOnce.takes (h : KeptOnce Row.Placed db.events) (ht : db.Takes rows) :
    KeptOnce Row.Placed (db.persist rows).events :=
  h.placed ht (.persist ⟨h.keys, h.once, fun _ => .inl⟩ (h.agree ht) fun _ => .inr)

/-- Rows that were added in other ledgers do not matter. -/
theorem Db.Takes.later {before : Db} (h : before.Takes rows)
    (hsub : ∀ r ∈ before.events.rows, r ∈ db.events.rows)
    (hadd : ∀ r ∈ db.events.rows, ∀ row ∈ rows, r ∈ before.events.rows ∨ r.ledger ≠ row.ledger) :
    db.Takes rows := by
  refine ⟨h.events, h.places, fun row hrow => ?_⟩
  obtain ⟨hl, hfree | ⟨r, hr, he⟩⟩ := h.fits row hrow
  · exact ⟨hl, .inl fun r hr => (hadd r hr row hrow).elim (hfree r) id⟩
  · exact ⟨hl, .inr ⟨r, hsub r hr, he⟩⟩

/-- The next page of a backfill is asked for behind what it has and what this page adds. -/
theorem lt_nextCursor {inRange : List RpcEvent} {cursor toLedger n : Nat} (hc : cursor ≤ toLedger)
    (hle : ∀ e ∈ inRange, cursor ≤ e.ledger) (hn : n < cursor ∨ ∃ e ∈ inRange, e.ledger = n) :
    n < match maxLedger inRange with
      | some ledger => ledger + 1
      | none => toLedger + 1 := by
  unfold maxLedger
  cases hm : (inRange.map (·.ledger)).max? with
  | none =>
    obtain rfl : inRange = [] := by simpa using hm
    rcases hn with hn | ⟨e, he, -⟩
    · simp only
      omega
    · cases he
  | some top =>
    obtain ⟨hin, hmax⟩ := max?_eq_some_iff.mp hm
    obtain ⟨e, he, rfl⟩ := mem_map.mp hin
    rcases hn with hn | ⟨d, hd, rfl⟩
    · exact Nat.lt_succ_of_lt (hn.trans_le (hle e he))
    · exact Nat.lt_succ_of_le (hmax _ (mem_map_of_mem hd))

/-- Each page lies behind what the pages before it have added. -/
theorem keptOnce_backfillLoop {before : Db} {fromLedger toLedger : Nat}
    {fetches : List (List Server)}
    (hm : Fitting cfg before (.backfill fromLedger toLedger fetches)) (pages cursor : Nat)
    (response : BackfillResponse) (h : KeptOnce Row.Placed db.events)
    (hsub : ∀ r ∈ before.events.rows, r ∈ db.events.rows)
    (hadd : ∀ r ∈ db.events.rows, r ∈ before.events.rows ∨ r.ledger < cursor) :
    KeptOnce Row.Placed
      (backfillLoop cfg fromLedger toLedger fetches pages cursor db response).1.events := by
  induction fetches generalizing pages cursor db response with
  | nil => exact h
  | cons servers rest ih =>
    obtain ⟨hf, hrest⟩ := forall_mem_cons.mp hm
    unfold backfillLoop
    split_ifs with hc
    · cases hr : getEvents cfg cursor .default servers with
      | none => exact h
      | some fetched =>
        obtain ⟨hle, ht⟩ := hf cursor fetched hr
        simp only
        split_ifs with he
        · exact h
        · have hl : ∀ e ∈ fetched.events.filter (fun e => fromLedger ≤ e.ledger && e.ledger ≤
              toLedger), cursor ≤ e.ledger := fun e he => hle e (mem_of_mem_filter he)
          refine ih hrest _ _ _ (h.takes (ht.later hsub fun r hr row hrow => ?_))
            (fun r hr => Table.mem_insertAll_of_mem (hsub r hr)) fun r hr => ?_
          · obtain ⟨e, he, hrow⟩ := mem_rowsOf hrow
            refine (hadd r hr).imp_right fun hlt => ?_
            rw [hrow]
            exact (hlt.trans_le (hl e he)).ne
          · rcases Table.mem_insertAll hr with hr | hr
            · exact (hadd r hr).imp_right fun hlt => lt_nextCursor hc.1 hl (.inl hlt)
            · obtain ⟨e, he, hrow⟩ := mem_rowsOf hr
              exact .inr (lt_nextCursor hc.1 hl (.inr ⟨e, he, by rw [hrow]; rfl⟩))
    · exact h

theorem mem_gapRows {answer : GapAnswer} {n m : Nat} {row : Row} (hle : n ≤ m)
    (h : row ∈ answer.rows n) : row ∈ answer.rows m := by
  have hg (o : Option Record) (hr : gapRow n o = some row) : gapRow m o = some row := by
    unfold gapRow at hr ⊢
    split at hr
    · cases hr
    · split at hr
      · split_ifs at hr
        rwa [if_neg (by omega)]
      · cases hr
  have hf (raw : List (Option Record)) (h : row ∈ raw.filterMap (gapRow n)) :
      row ∈ raw.filterMap (gapRow m) := by
    obtain ⟨o, ho, hr⟩ := mem_filterMap.mp h
    exact mem_filterMap.mpr ⟨o, ho, hg o hr⟩
  cases answer with
  | httpError | rpcError => exact h
  | thrown raw | events raw => exact hf raw h

section

variable (h : KeptOnce P db.events) (ha : Table.Agree Row.key Row.origin P)

include h ha

/-- A pass removes rows or adds those of its gap. -/
theorem keptOnce_runReconciliation (cfg : Config) (contract : Contract) (answers : SyncAnswers)
    (hrows : ∀ row ∈ answers.rows, P row) :
    KeptOnce P (runReconciliation cfg contract answers db).events := by
  have hd : KeptOnce P (detectAndHandleReorg cfg contract answers (db.syncOf contract)
      (db.saveSync contract (db.syncOf contract))).2.events := by
    unfold detectAndHandleReorg
    cases reorgFound (db.syncOf contract) answers with
    | none => exact h
    | some hashes =>
      have hsub := filter_sublist (l := db.events.rows)
        (p := fun row => decide (row.ledger ≤ forkLedgerOf cfg (db.syncOf contract)))
      exact ⟨(hsub.map _).nodup h.keys, h.once.retain _, fun r hr => h.all r (hsub.subset hr)⟩
  unfold runReconciliation
  simp only
  split_ifs
  · exact h
  · cases hc : answers.chainHead with
    | none => exact hd
    | some chainHead =>
      simp only [SyncAnswers.rows, hc, Option.getD_some] at hrows
      simp only [fillWindow]
      split_ifs
      · exact hd
      all_goals
        exact hd.persist ha fun row hr => hrows row (mem_gapRows (Nat.min_le_right _ _) hr)

theorem keptOnce_reconcileEach {passes : List (Contract × SyncAnswers)}
    (hrows : ∀ pass ∈ passes, ∀ row ∈ pass.2.rows, P row) :
    KeptOnce P (reconcileEach cfg passes db).events := by
  induction passes generalizing db with
  | nil => exact h
  | cons pass passes ih =>
    obtain ⟨hp, hrows⟩ := forall_mem_cons.mp hrows
    exact ih (keptOnce_runReconciliation h ha cfg pass.1 pass.2 hp) hrows

end

theorem keptOnce_step (db : Db) (e : Move) (h : KeptOnce Row.Placed db.events)
    (hm : Fitting cfg db e) : KeptOnce Row.Placed (step cfg db e).events := by
  cases e with
  | poll servers =>
    rcases pollContractEvents_cases cfg servers db with hs | ⟨response, hr, hs⟩
    · rwa [step, hs]
    · rw [step, hs]
      exact h.takes (hm response hr)
  | reindex fromLedger => exact h
  | backfill fromLedger toLedger fetches =>
    exact keptOnce_backfillLoop hm 0 fromLedger _ h (fun _ hr => hr) fun _ hr => .inl hr
  | reconcile answers =>
    simp only [step, reconcile]
    split_ifs
    · refine h.placed hm (keptOnce_reconcileEach ⟨h.keys, h.once, fun _ => .inl⟩ (h.agree hm)
        fun pass hp row hr => .inr ?_)
      exact mem_flatMap.mpr ⟨_, (of_mem_zip hp).2, hr⟩
    · exact h

/-- Each event is stored once if whatever is fetched fits the rows: in ledgers that have none, or in
the places that its events have. -/
theorem stored_once (cfg : Config) (es : List Move)
    (hfitting : AllSteps (step cfg) (Fitting cfg) .empty es) :
    AllStates (step cfg) Db.StoredOnce .empty es := by
  have h0 : KeptOnce Row.Placed .empty := ⟨nodup_nil, Table.storedOnce_empty,
    fun _ hr => absurd hr not_mem_nil⟩
  exact (invariant_allStates keptOnce_step h0 hfitting).mono fun _ h => h.once

/-- Two contracts emit in the first ledger, and one of them again in the second. -/
def twoContracts : Chain where
  events := [⟨"0001", 1, 1, ["deposit"], "500", "aa"⟩, ⟨"0002", 2, 1, ["harvested"], "70", "bb"⟩,
    ⟨"0003", 1, 2, ["deposit"], "800", "cc"⟩]
  numbered := by decide
  ordered := by decide
  ids := by decide

def bothContracts : Config := ⟨true, some 1, some 2, true, none, none⟩

/-- The node answers every request in full. -/
def fullPage (contract : Contract) : List Server :=
  [Behaviour.server twoContracts contract (.page 200 2 true)]

def fullGap (contract : Contract) : SyncAnswers :=
  ⟨none, none, some 2, .events ((twoContracts.of contract).map (fun e => some e.record)),
    some "h2"⟩

/-- An event of the third ledger with its number there. -/
def numberedGap (contract logIndex : Nat) : SyncAnswers :=
  ⟨none, none, some 3, .events [some { ChainEvent.record ⟨"000" ++ toString (contract + 3),
    contract, 3, ["deposit"], "900", "dd"⟩ with logIndex := some logIndex }], some "h3"⟩

/-- The same poll twice, and then a ledger in which both contracts emit. -/
theorem fetchedAgain_once :
    AllStates (step bothContracts) Db.StoredOnce .empty
      [.poll (fullPage 1), .reindex 0, .poll (fullPage 1),
        .reconcile [numberedGap 1 0, numberedGap 2 1]] := by
  have hr : getEvents bothContracts 1 .default (fullPage 1) =
      some ⟨(twoContracts.of 1).map ChainEvent.rpc, 2, some "0003"⟩ := by decide +kernel
  refine stored_once _ _ ⟨fun response h => ?_, trivial, fun response h => ?_, ?_, trivial⟩
  · obtain rfl := Option.some.inj (hr.symm.trans h)
    exact ⟨by decide +kernel, by decide +kernel, by decide +kernel⟩
  · obtain rfl := Option.some.inj (hr.symm.trans h)
    exact ⟨by decide +kernel, by decide +kernel, by decide +kernel⟩
  · exact ⟨by decide +kernel, by decide +kernel, by decide +kernel⟩

/-- A poll, a request to index again from the first ledger, another poll, and a reconciliation. -/
def fetchedAgain : List Move :=
  [.poll (fullPage 1), .reindex 1, .poll (fullPage 1), .reconcile [fullGap 1, fullGap 2]]

/-- The last event has two rows, and the event of the other contract was taken for the first. -/
theorem fetchedAgain_mixed :
    let db := runFrom (step bothContracts) .empty fetchedAgain
    ¬(db.events.rows.map Row.origin).Nodup ∧
      .tried
        ⟨1, 0, "unknown", "70", none, .pending, 0, ⟨"0002", 2, 1, ["harvested"], "70", "bb"⟩⟩
        (some ⟨1, 0, "deposit", "500", some "aa", .pending, 0,
          ⟨"0001", 1, 1, ["deposit"], "500", "aa"⟩⟩) ∈ db.events.history ∧
      ¬db.Has ⟨"0002", 2, 1, ["harvested"], "70", "bb"⟩ := by
  decide +kernel

end Stow.Indexer
