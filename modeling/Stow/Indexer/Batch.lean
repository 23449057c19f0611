import Mathlib.Data.List.Sort
import Stow.Indexer.Checkpoint
import Stow.Indexer.Decode

/-! Applying the events that a poll finds stored, batch by batch. -/
namespace Stow.Indexer

open Stow.Lib Stow.Projection List Async

def maxRetries : Nat := 5

def batchSize : Nat := 100

/-- The tables that a poll works on. -/
structure Backend where
  db : Db
  views : Views

def Backend.empty : Backend := ⟨.empty, .empty⟩

def Backend.setViews (v : Views) (b : Backend) : Backend := { b with views := v }

def Backend.saveEvent (b : Backend) (row : Row) : Backend :=
  { b with db := { b.db with events := b.db.events.save Row.key row } }

def Row.processed (row : Row) : Row := { row with status := .processed }

def Row.retried (row : Row) : Row :=
  { row with
    retryCount := row.retryCount + 1
    status := if maxRetries ≤ row.retryCount + 1 then .dlq else .failed }

section

-- the object that a stored text is read as
variable (parse : String → Payload)

def Row.handle (row : Row) : Async Views Unit :=
  decodeAndApply (Topic.parse row.eventType) (parse row.data) row.ledger row.txHash

def tryEvent (row : Row) : Async Backend Unit := do
  (row.handle parse).zoom Backend.views Backend.setViews
  write (·.saveEvent row.processed)

/-- A failure is saved, unless that fails as well. -/
def applyEvent (row : Row) : Async Backend Unit :=
  (tryEvent parse row).catching (write (·.saveEvent row.retried))

end

/-- The order of the rows in a result: by the ledger, and in a ledger as the database likes. -/
def Row.before (rank : Row → Nat) (a b : Row) : Prop :=
  a.ledger < b.ledger ∨ a.ledger = b.ledger ∧ rank a ≤ rank b

instance (rank : Row → Nat) : DecidableRel (Row.before rank) :=
  fun _ _ => inferInstanceAs (Decidable (_ ∨ _))

def pendingBatch (rank : Row → Nat) (rows : List Row) : List Row :=
  ((rows.filter (·.status = .pending)).insertionSort (Row.before rank)).take batchSize

/-! ### Polls, step by step -/

/-- The tables, and the rows of a batch that are still to be applied. -/
structure Pipeline where
  backend : Backend
  batch : List Row

def Pipeline.started : Pipeline := ⟨.empty, []⟩

abbrev Pipeline.rows (s : Pipeline) : List Row := s.backend.db.events.rows

/-- A poll fetches, selects a batch and applies its events one after another. -/
inductive PollMove (A : Type) where
  | fetch (answers : A)
  | select (rank : Row → Nat)
  | attempt (faults : List Bool)

section

variable {A : Type} (cfg : Config) (serve : A → List Server) (parse : String → Payload)

/-- No poll starts before the last one has ended. One that cannot save a failure ends there. -/
def batchStep (s : Pipeline) : PollMove A → Pipeline
  | .fetch answers =>
    if s.batch = [] then
      { s with
        backend := { s.backend with db := pollContractEvents cfg (serve answers) s.backend.db } }
    else s
  | .select rank =>
    if s.batch = [] ∧ cfg.contractId ≠ none then { s with batch := pendingBatch rank s.rows } else s
  | .attempt faults =>
    match s.batch with
    | [] => s
    | row :: rest =>
      let r := (applyEvent parse row).exec faults s.backend
      ⟨r.1, if r.2.isSome then rest else []⟩

end

/-! ### How an attempt ends -/

inductive Outcome where
  | processed | failed | aborted
  deriving Repr, DecidableEq

variable {parse : String → Payload} {row : Row} {faults : List Bool} {b : Backend}

section

variable (parse)

def outcome (row : Row) (faults : List Bool) (b : Backend) : Outcome :=
  if ((tryEvent parse row).exec faults b).2.isSome then .processed
  else if ((applyEvent parse row).exec faults b).2.isSome then .failed
  else .aborted

/-- The handler of the event ran to its end. -/
def handled (row : Row) (faults : List Bool) (v : Views) : Bool :=
  ((row.handle parse).exec faults v).2.isSome

/-- What the handler did, to its end or not. -/
def handledViews (row : Row) (faults : List Bool) (v : Views) : Views :=
  ((row.handle parse).exec faults v).1

end

theorem exec_handle :
    ((row.handle parse).zoom Backend.views Backend.setViews).exec faults b =
      (b.setViews (handledViews parse row faults b.views),
        ((row.handle parse).exec faults b.views).2) := by
  have hg : ∀ (v : Views) (b : Backend), (b.setViews v).views = v := fun _ _ => rfl
  exact exec_zoom hg (fun _ _ _ => rfl) (fun _ => rfl) _ _ _

/-- Either both parts succeed, or the tables of events are as they were. -/
theorem exec_tryEvent (parse : String → Payload) (row : Row) (faults : List Bool) (b : Backend) :
    (tryEvent parse row).exec faults b =
        ((b.setViews (handledViews parse row faults b.views)).saveEvent row.processed, some ()) ∧
        handled parse row faults b.views = true ∨
      (tryEvent parse row).exec faults b =
        (b.setViews (handledViews parse row faults b.views), none) := by
  unfold tryEvent
  cases hr : ((row.handle parse).exec faults b.views).2 with
  | none => exact .inr (exec_bind_of_none (exec_handle.trans (by rw [hr])))
  | some u =>
    obtain ⟨n, hn⟩ := exec_bind_of_some
      (f := fun _ => write (·.saveEvent row.processed))
      (exec_handle.trans (by rw [hr]))
    rw [hn, exec_write]
    split_ifs
    · exact .inr rfl
    · exact .inl ⟨rfl, by simp [handled, hr]⟩

/-- An attempt is saved as processed, or the failure is saved, or nothing is. -/
theorem applyEvent_cases (parse : String → Payload) (row : Row) (faults : List Bool)
    (b : Backend) :
    (outcome parse row faults b = .processed ∧ handled parse row faults b.views = true ∧
      (applyEvent parse row).exec faults b =
        ((b.setViews (handledViews parse row faults b.views)).saveEvent row.processed, some ())) ∨
    (outcome parse row faults b = .failed ∧
      (applyEvent parse row).exec faults b =
        ((b.setViews (handledViews parse row faults b.views)).saveEvent row.retried, some ())) ∨
    (outcome parse row faults b = .aborted ∧
      (applyEvent parse row).exec faults b =
        (b.setViews (handledViews parse row faults b.views), none)) := by
  unfold outcome
  rcases exec_tryEvent parse row faults b with ⟨ht, hh⟩ | ht
  · refine .inl ⟨?_, hh, exec_catching_of_some ht⟩
    rw [ht]
    rfl
  · obtain ⟨n, hn⟩ : ∃ n, (applyEvent parse row).exec faults b =
        (write (·.saveEvent row.retried)).exec (faults.drop n)
          (b.setViews (handledViews parse row faults b.views)) :=
      exec_catching_of_none ht
    rw [exec_write] at hn
    rw [ht]
    split_ifs at hn
    · refine .inr (.inr ⟨?_, hn⟩)
      rw [hn]
      rfl
    · refine .inr (.inl ⟨?_, hn⟩)
      rw [hn]
      rfl

/-- When nothing is rejected the end is saved, whatever the handler did. -/
theorem outcome_run (parse : String → Payload) (row : Row) (b : Backend) :
    outcome parse row [] b ≠ .aborted := by
  unfold outcome
  rcases exec_tryEvent parse row [] b with ⟨ht, -⟩ | ht
  · rw [ht]
    simp
  · obtain ⟨n, hn⟩ : ∃ n, (applyEvent parse row).exec [] b =
        (write (·.saveEvent row.retried)).exec (([] : List Bool).drop n)
          (b.setViews (handledViews parse row [] b.views)) :=
      exec_catching_of_none ht
    rw [ht, hn, drop_nil, exec_write]
    simp

/-! ### Steps of a poll -/

section

variable {A : Type} {cfg : Config} {serve : A → List Server} {s : Pipeline} {rest : List Row}

/-- What an attempt that ends so leaves, after what the handler did. -/
def Outcome.settle (row : Row) (rest : List Row) (b : Backend) : Outcome → Pipeline
  | .processed => ⟨b.saveEvent row.processed, rest⟩
  | .failed => ⟨b.saveEvent row.retried, rest⟩
  | .aborted => ⟨b, []⟩

theorem attempt_eq {o : Outcome} (hb : s.batch = row :: rest)
    (ho : outcome parse row faults s.backend = o) :
    batchStep cfg serve parse s (.attempt faults) =
      o.settle row rest (s.backend.setViews (handledViews parse row faults s.backend.views)) := by
  subst ho
  rcases applyEvent_cases parse row faults s.backend with ⟨ho, -, he⟩ | ⟨ho, he⟩ | ⟨ho, he⟩ <;>
    simp [batchStep, hb, he, ho, Outcome.settle]

theorem attempt_of_nil (hb : s.batch = []) :
    batchStep cfg serve parse s (.attempt faults) = s := by
  simp [batchStep, hb]

theorem handled_of_processed (h : outcome parse row faults b = .processed) :
    handled parse row faults b.views = true := by
  rcases applyEvent_cases parse row faults b with ⟨-, hh, -⟩ | ⟨hf, -⟩ | ⟨ha, -⟩
  · exact hh
  · rw [hf] at h
    cases h
  · rw [ha] at h
    cases h

/-- The rows that a step writes: fetched ones, and the one that is attempted. -/
inductive Written (cfg : Config) (serve : A → List Server) (parse : String → Payload)
    (s : Pipeline) : PollMove A → Row → Prop
  | fetched {answers : A} {response : EventsResponse} {r : RpcEvent} (i : Nat) :
    getEvents cfg (startLedgerOf s.backend.db.lastProcessed) .default (serve answers) =
      some response → r ∈ response.events → Written cfg serve parse s (.fetch answers) (r.row i)
  | processed {faults : List Bool} {row : Row} {rest : List Row} : s.batch = row :: rest →
    outcome parse row faults s.backend = .processed →
      Written cfg serve parse s (.attempt faults) row.processed
  | failed {faults : List Bool} {row : Row} {rest : List Row} : s.batch = row :: rest →
    outcome parse row faults s.backend = .failed →
      Written cfg serve parse s (.attempt faults) row.retried

theorem mem_step {e : PollMove A} (h : row ∈ (batchStep cfg serve parse s e).rows) :
    row ∈ s.rows ∨ Written cfg serve parse s e row := by
  cases e with
  | fetch answers =>
    simp only [batchStep] at h
    split_ifs at h
    · rcases pollContractEvents_cases cfg (serve answers) s.backend.db with
        hs | ⟨response, hrs, ha⟩
      · exact .inl (by simpa only [Pipeline.rows, hs] using h)
      · simp only [Pipeline.rows, ha] at h
        rcases Table.mem_insertAll h with h | h
        · exact .inl h
        · obtain ⟨r, hr, hrw⟩ := mem_rowsOf h
          rw [hrw]
          exact .inr (.fetched _ hrs hr)
    · exact .inl h
  | select rank =>
    simp only [batchStep] at h
    split_ifs at h <;> exact .inl h
  | attempt faults =>
    cases hb : s.batch with
    | nil =>
      rw [attempt_of_nil hb] at h
      exact .inl h
    | cons first rest =>
      cases ho : outcome parse first faults s.backend with
      | processed =>
        rw [attempt_eq hb ho] at h
        rcases Table.mem_save.mp h with ⟨h, -⟩ | ⟨rfl, -⟩
        · exact .inl h
        · exact .inr (.processed hb ho)
      | failed =>
        rw [attempt_eq hb ho] at h
        rcases Table.mem_save.mp h with ⟨h, -⟩ | ⟨rfl, -⟩
        · exact .inl h
        · exact .inr (.failed hb ho)
      | aborted =>
        rw [attempt_eq hb ho] at h
        exact .inl h

/-! ### What holds in every state -/

/-- A row is new, processed, or has failed once. -/
def Row.Once (row : Row) : Prop :=
  (row.status = .pending ∨ row.status = .processed) ∧ row.retryCount = 0 ∨
    row.status = .failed ∧ row.retryCount = 1

/-- The batch is in order, and ahead of all other rows that are pending. -/
structure Queued (R : Row → Row → Prop) (s : Pipeline) : Prop where
  sorted : s.batch.Pairwise R
  ahead : ∀ row ∈ s.rows, row.status = .pending → row ∉ s.batch → ∀ r ∈ s.batch, R r row

/-- The batch holds stored rows that are pending, in the order of their ledgers, and no row of an
earlier ledger is pending behind it. -/
structure InHand (cfg : Config) (s : Pipeline) : Prop
    extends Queued (fun a b => a.ledger ≤ b.ledger) s where
  keys : (s.rows.map Row.key).Nodup
  once : ∀ row ∈ s.rows, row.Once
  stored : ∀ row ∈ s.batch, row ∈ s.rows ∧ row.status = .pending
  distinct : (s.batch.map Row.key).Nodup
  configured : cfg.contractId = none → s.rows = []

/-- Between two polls nothing is in hand. -/
theorem InHand.of_nil {b : Backend} (hk : (b.db.events.rows.map Row.key).Nodup)
    (ho : ∀ row ∈ b.db.events.rows, row.Once)
    (hc : cfg.contractId = none → b.db.events.rows = []) : InHand cfg ⟨b, []⟩ where
  keys := hk
  once := ho
  stored := by simp
  distinct := by simp
  sorted := by simp
  ahead := by simp
  configured := hc

theorem inHand_started : InHand cfg .started :=
  .of_nil nodup_nil (fun _ hr => absurd hr not_mem_nil) (fun _ => rfl)

theorem InHand.fetch (hs : InHand cfg s) (answers : A) :
    InHand cfg (batchStep cfg serve parse s (.fetch answers)) := by
  have ho : ∀ row ∈ (batchStep cfg serve parse s (.fetch answers)).rows, row.Once := by
    intro row hr
    rcases mem_step hr with hr | hw
    · exact hs.once row hr
    · cases hw with
      | fetched i _ _ => exact .inl ⟨.inl rfl, rfl⟩
  by_cases hb : s.batch = []
  · have hst : batchStep cfg serve parse s (.fetch answers) =
        ⟨⟨pollContractEvents cfg (serve answers) s.backend.db, s.backend.views⟩, []⟩ := by
      simp [batchStep, hb]
    rw [hst] at ho ⊢
    refine .of_nil ?_ ho ?_
    · rcases pollContractEvents_cases cfg (serve answers) s.backend.db with
        hsm | ⟨response, -, ha⟩
      · rw [hsm]
        exact hs.keys
      · rw [ha]
        exact Table.nodup_keys_insertAll hs.keys _
    · intro hn
      have hsm : pollContractEvents cfg (serve answers) s.backend.db = s.backend.db :=
        if_pos hn
      rw [hsm]
      exact hs.configured hn
  · have hst : batchStep cfg serve parse s (.fetch answers) = s := if_neg hb
    rwa [hst]

theorem mem_pendingBatch {rank : Row → Nat} {rows : List Row} (h : row ∈ pendingBatch rank rows) :
    row ∈ rows ∧ row.status = .pending := by
  have hm := (mem_insertionSort _).mp (mem_of_mem_take h)
  simpa using mem_filter.mp hm

theorem nodup_pendingBatch {rank : Row → Nat} {rows : List Row} (h : (rows.map Row.key).Nodup) :
    ((pendingBatch rank rows).map Row.key).Nodup := by
  have hp := (perm_insertionSort (Row.before rank)
    (rows.filter (·.status = .pending))).map Row.key
  refine ((take_sublist _ _).map Row.key).nodup (hp.nodup_iff.mpr ?_)
  exact (filter_sublist.map Row.key).nodup h

instance (rank : Row → Nat) : Std.Total (Row.before rank) := ⟨by
  intro a b
  unfold Row.before
  omega⟩

instance (rank : Row → Nat) : IsTrans Row (Row.before rank) := ⟨by
  intro a b c
  unfold Row.before
  omega⟩

theorem Row.before.ledger_le {rank : Row → Nat} {a b : Row} (h : a.before rank b) :
    a.ledger ≤ b.ledger := by
  unfold Row.before at h
  omega

theorem queued_pendingBatch {R : Row → Row → Prop} {rank : Row → Nat}
    (hR : ∀ a ∈ s.rows, ∀ b ∈ s.rows, a.before rank b → R a b) :
    Queued R { s with batch := pendingBatch rank s.rows } := by
  let pending := (s.rows.filter (·.status = .pending)).insertionSort (Row.before rank)
  have hsr : pending.Pairwise (Row.before rank) := pairwise_insertionSort _ _
  refine ⟨?_, fun row hrw hp ho r hr => ?_⟩
  · refine (hsr.sublist (take_sublist _ _)).imp_of_mem fun ha hb => ?_
    exact hR _ (mem_pendingBatch ha).1 _ (mem_pendingBatch hb).1
  · have hm : row ∈ pending :=
      (mem_insertionSort _).mpr (mem_filter.mpr ⟨hrw, by simpa using hp⟩)
    rw [← take_append_drop batchSize pending] at hm hsr
    have hd := (mem_append.mp hm).resolve_left ho
    exact hR r (mem_pendingBatch hr).1 row hrw ((pairwise_append.mp hsr).2.2 r hr row hd)

theorem InHand.select (hs : InHand cfg s) (rank : Row → Nat) :
    InHand cfg (batchStep cfg serve parse s (.select rank)) := by
  simp only [batchStep]
  split_ifs with hb
  · exact ⟨queued_pendingBatch fun _ _ _ _ h => h.ledger_le, hs.keys, hs.once,
      fun row hrw => mem_pendingBatch hrw, nodup_pendingBatch hs.keys, hs.configured⟩
  · exact hs

theorem Queued.save {R : Row → Row → Prop} {saved : Row} {v : Views} (h : Queued R s)
    (hb : s.batch = row :: rest) (hk : saved.key = row.key) (hp : saved.status ≠ .pending) :
    Queued R ⟨(s.backend.setViews v).saveEvent saved, rest⟩ := by
  refine ⟨(pairwise_cons.mp (hb ▸ h.sorted)).2, fun r hr hst hot r' hr' => ?_⟩
  rcases Table.mem_save.mp hr with ⟨hr, hrk⟩ | ⟨rfl, -⟩
  · refine h.ahead r hr hst ?_ r' (hb ▸ mem_cons_of_mem _ hr')
    rw [hb]
    rintro hin
    rcases mem_cons.mp hin with rfl | hin
    · exact hrk hk.symm
    · exact hot hin
  · exact absurd hst hp

/-- The row at the head of the batch is written over, and no longer pending. -/
theorem InHand.save {saved : Row} {v : Views} (hs : InHand cfg s) (hb : s.batch = row :: rest)
    (hk : saved.key = row.key) (hp : saved.status ≠ .pending) (ho : saved.Once) :
    InHand cfg ⟨(s.backend.setViews v).saveEvent saved, rest⟩ := by
  have hm : row ∈ s.batch := hb ▸ mem_cons_self
  have hrs : ∀ r ∈ rest, r ∈ s.batch := fun r hr => hb ▸ mem_cons_of_mem _ hr
  have hd := hs.distinct
  rw [hb, map_cons, nodup_cons] at hd
  have hne : ∀ r ∈ rest, r.key ≠ saved.key := by
    intro r hr heq
    exact hd.1 ((heq.trans hk) ▸ mem_map_of_mem hr)
  refine ⟨hs.toQueued.save hb hk hp, ?_, fun r hr => ?_, fun r hr => ?_, hd.2, fun hn => ?_⟩
  · show (((s.backend.db.events.save Row.key saved).rows).map Row.key).Nodup
    rw [Table.keys_save]
    exact hs.keys
  · rcases Table.mem_save.mp hr with ⟨hr, -⟩ | ⟨rfl, -⟩
    · exact hs.once r hr
    · exact ho
  · obtain ⟨hsr, hst⟩ := hs.stored r (hrs r hr)
    exact ⟨Table.mem_save_of_ne hsr (hne r hr), hst⟩
  · exact absurd (hs.configured hn ▸ (hs.stored row hm).1) not_mem_nil

theorem Row.Once.retried (h : row.Once) (hp : row.status = .pending) :
    row.retried.status = .failed ∧ row.retried.Once := by
  rcases h with ⟨-, hc⟩ | ⟨hf, -⟩
  · simp [Row.retried, Row.Once, hc, maxRetries]
  · rw [hf] at hp
    cases hp

theorem InHand.attempt (hs : InHand cfg s) (faults : List Bool) :
    InHand cfg (batchStep cfg serve parse s (.attempt faults)) := by
  cases hb : s.batch with
  | nil => rwa [attempt_of_nil hb]
  | cons row rest =>
    obtain ⟨hst, hp⟩ := hs.stored row (hb ▸ mem_cons_self)
    cases ho : outcome parse row faults s.backend with
    | processed =>
      rw [attempt_eq hb ho]
      refine hs.save hb rfl (by simp [Row.processed]) (.inl ⟨.inr rfl, ?_⟩)
      rcases hs.once row hst with ⟨-, hc⟩ | ⟨hf, -⟩
      · exact hc
      · rw [hf] at hp
        cases hp
    | failed =>
      obtain ⟨hss, hon⟩ := (hs.once row hst).retried hp
      rw [attempt_eq hb ho]
      exact hs.save hb rfl (by simp [hss]) hon
    | aborted =>
      rw [attempt_eq hb ho]
      exact .of_nil hs.keys hs.once hs.configured

theorem inHand_step (s : Pipeline) (e : PollMove A) (hs : InHand cfg s) :
    InHand cfg (batchStep cfg serve parse s e) := by
  cases e with
  | fetch answers => exact hs.fetch answers
  | select rank => exact hs.select rank
  | attempt faults => exact hs.attempt faults

/-- A key leads to one row. -/
theorem InHand.unique (hs : InHand cfg s) {a b : Row} (ha : a ∈ s.rows) (hb : b ∈ s.rows)
    (h : a.key = b.key) : a = b :=
  inj_on_of_nodup_map hs.keys ha hb h

end

end Stow.Indexer
