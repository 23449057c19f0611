import Stow.Indexer.Batch

/-! What becomes of an event whose application fails. -/
namespace Stow.Indexer

open Stow.Lib Stow.Projection List

section

variable {A : Type} (cfg : Config) (serve : A → List Server) (parse : String → Payload)

/-- Some later step comes to the event. -/
def TakenUp (s : Pipeline) (key : Nat × Nat) : Prop :=
  ∃ es, ∃ row ∈ (runFrom (batchStep cfg serve parse) s es).batch.head?, row.key = key

/-- Every event is processed, dead-lettered, or taken up again. -/
def NoneStranded (s : Pipeline) : Prop :=
  ∀ row ∈ s.rows, row.status = .processed ∨ row.status = .dlq ∨
    TakenUp cfg serve parse s row.key

/-- No failure of an event is saved. -/
def NoneFails (s : Pipeline) : PollMove A → Prop
  | .attempt faults => ∀ row ∈ s.batch.head?, outcome parse row faults s.backend ≠ .failed
  | _ => True

/-- The events whose application failed, once for each time. -/
def failureNote (s : Pipeline) (e : PollMove A) (failures : List (Nat × Nat)) :
    List (Nat × Nat) :=
  match e, s.batch with
  | .attempt faults, row :: _ =>
    if outcome parse row faults s.backend = .failed then row.key :: failures else failures
  | _, _ => failures

end

/-- An event is dead-lettered when it has failed as often as allowed. -/
def LettersCounted (p : Pipeline × List (Nat × Nat)) : Prop :=
  ∀ row ∈ p.1.rows, row.status = .dlq → p.2.count row.key = maxRetries

variable {A : Type} {cfg : Config} {serve : A → List Server} {parse : String → Payload}
  {s : Pipeline} {row first : Row} {rest : List Row} {faults : List Bool}

/-! ### A failed event -/

/-- An attempt at one event leaves the rows of all others. -/
theorem attempt_kept (hb : s.batch = first :: rest) (hr : row ∈ s.rows)
    (hk : row.key ≠ first.key) :
    row ∈ (batchStep cfg serve parse s (.attempt faults)).rows := by
  cases ho : outcome parse first faults s.backend <;> rw [attempt_eq hb ho]
  case processed | failed => exact Table.mem_save_of_ne hr hk
  case aborted => exact hr

theorem fetch_kept (answers : A) (hr : row ∈ s.rows) :
    row ∈ (batchStep cfg serve parse s (.fetch answers)).rows := by
  simp only [batchStep]
  split_ifs
  · rcases pollContractEvents_cases cfg (serve answers) s.backend.db with
      hs | ⟨response, -, ha⟩
    · show row ∈ (pollContractEvents cfg (serve answers) s.backend.db).events.rows
      rw [hs]
      exact hr
    · show row ∈ (pollContractEvents cfg (serve answers) s.backend.db).events.rows
      rw [ha]
      exact Table.mem_insertAll_of_mem hr
  · exact hr

theorem select_rows (rank : Row → Nat) :
    (batchStep cfg serve parse s (.select rank)).rows = s.rows := by
  simp only [batchStep]
  split_ifs <;> rfl

/-- A batch holds pending rows, so a failed one stays as it is. -/
theorem failed_kept (hs : InHand cfg s) (hr : row ∈ s.rows) (hf : row.status = .failed)
    (e : PollMove A) : row ∈ (batchStep cfg serve parse s e).rows := by
  cases e with
  | fetch answers => exact fetch_kept answers hr
  | select rank =>
    rw [select_rows]
    exact hr
  | attempt faults =>
    cases hb : s.batch with
    | nil =>
      rw [attempt_of_nil hb]
      exact hr
    | cons first rest =>
      obtain ⟨hst, hp⟩ := hs.stored first (hb ▸ mem_cons_self)
      refine attempt_kept hb hr fun hk => ?_
      rw [hs.unique hr hst hk, hp] at hf
      cases hf

theorem failed_not_taken (hs : InHand cfg s) (hr : row ∈ s.rows)
    (hf : row.status = .failed) : ¬TakenUp cfg serve parse s row.key := by
  rintro ⟨es, next, hn, hk⟩
  have hl : InHand cfg (runFrom (batchStep cfg serve parse) s es) ∧
      row ∈ (runFrom (batchStep cfg serve parse) s es).rows :=
    invariant_reachable (I := fun s => InHand cfg s ∧ row ∈ s.rows)
      (fun s e h => ⟨inHand_step s e h.1, failed_kept h.1 h.2 hf e⟩) ⟨hs, hr⟩ es
  obtain ⟨hst, hp⟩ := hl.1.stored next (mem_of_mem_head? hn)
  rw [← hl.1.unique hst hl.2 hk, hp] at hf
  cases hf

/-! ### A pending event -/

theorem TakenUp.of_run {key : Nat × Nat} (es : List (PollMove A))
    (h : TakenUp cfg serve parse (runFrom (batchStep cfg serve parse) s es) key) :
    TakenUp cfg serve parse s key := by
  obtain ⟨fs, hfs⟩ := h
  refine ⟨es ++ fs, ?_⟩
  rwa [runFrom_append]

/-- Between two polls, a new one selects a batch. -/
theorem exists_batch (hs : InHand cfg s) (hr : row ∈ s.rows) (hp : row.status = .pending) :
    ∃ es : List (PollMove A),
      (runFrom (batchStep cfg serve parse) s es).backend = s.backend ∧
        (runFrom (batchStep cfg serve parse) s es).batch ≠ [] := by
  by_cases hb : s.batch = []
  · have hc : cfg.contractId ≠ none := by
      intro hn
      exact absurd (hs.configured hn ▸ hr) not_mem_nil
    have hsl : batchStep cfg serve parse s (.select fun _ => 0) =
        { s with batch := pendingBatch (fun _ => 0) s.rows } := if_pos ⟨hb, hc⟩
    refine ⟨[.select fun _ => 0], ?_, ?_⟩
    · rw [runFrom_cons, hsl]
      rfl
    · rw [runFrom_cons, hsl]
      have hm : row ∈ (s.rows.filter (·.status = .pending)).insertionSort
          (Row.before fun _ => 0) :=
        (mem_insertionSort _).mpr (mem_filter.mpr ⟨hr, by simpa using hp⟩)
      intro hnl
      rcases take_eq_nil_iff.mp hnl with hz | hn
      · cases hz
      · rw [hn] at hm
        cases hm
  · exact ⟨[], rfl, hb⟩

/-- With nothing rejected, an attempt leaves one pending row less. -/
theorem attempt_countP (hs : InHand cfg s) (hb : s.batch = first :: rest) :
    (batchStep cfg serve parse s (.attempt [])).rows.countP (·.status = .pending) <
      s.rows.countP (·.status = .pending) := by
  obtain ⟨hst, hp⟩ := hs.stored first (hb ▸ mem_cons_self)
  cases ho : outcome parse first [] s.backend with
  | processed =>
    rw [attempt_eq hb ho]
    exact Table.countP_save_lt hst rfl (by simpa using hp) (by simp [Row.processed])
  | failed =>
    rw [attempt_eq hb ho]
    have hf := ((hs.once first hst).retried hp).1
    exact Table.countP_save_lt hst rfl (by simpa using hp) (by simp [hf])
  | aborted => exact absurd ho (outcome_run parse first s.backend)

/-- Polls in which nothing is rejected come to every pending row. -/
theorem pending_taken (hs : InHand cfg s) (hrw : row ∈ s.rows) (hp : row.status = .pending) :
    TakenUp cfg serve parse s row.key := by
  induction hn : s.rows.countP (·.status = .pending) using Nat.strong_induction_on
    generalizing s with
  | _ n ih =>
    obtain ⟨es, hb, hbt⟩ : ∃ es : List (PollMove A),
        (runFrom (batchStep cfg serve parse) s es).backend = s.backend ∧
          (runFrom (batchStep cfg serve parse) s es).batch ≠ [] := exists_batch hs hrw hp
    refine .of_run es ?_
    have hs' : InHand cfg (runFrom (batchStep cfg serve parse) s es) :=
      invariant_reachable inHand_step hs es
    generalize runFrom (batchStep cfg serve parse) s es = s' at hb hbt hs'
    have hr : s'.rows = s.rows := congrArg (fun b : Backend => b.db.events.rows) hb
    obtain ⟨first, rest, hc⟩ := exists_cons_of_ne_nil hbt
    by_cases hk : first.key = row.key
    · exact ⟨[], first, by simp [hc], hk⟩
    · refine .of_run [.attempt []] ?_
      rw [runFrom_cons, runFrom_nil]
      refine ih _ ?_ (inHand_step s' _ hs') ?_ rfl
      · rw [← hn, ← hr]
        exact attempt_countP hs' hc
      · exact attempt_kept hc (hr ▸ hrw) (Ne.symm hk)

/-! ### Whole runs -/

/-- Nothing is stranded as long as nothing has failed. -/
theorem noneStranded_iff (hs : InHand cfg s) :
    NoneStranded cfg serve parse s ↔ ∀ row ∈ s.rows, row.status ≠ .failed := by
  constructor
  · intro h row hr hfl
    rcases h row hr with hp | hd | ht
    · rw [hfl] at hp
      cases hp
    · rw [hfl] at hd
      cases hd
    · exact failed_not_taken hs hr hfl ht
  · intro h row hr
    rcases hs.once row hr with ⟨hp | hp, -⟩ | ⟨hf, -⟩
    · exact .inr (.inr (pending_taken hs hr hp))
    · exact .inl hp
    · exact absurd hf (h row hr)

theorem noFailed_step_iff (hs : InHand cfg s) (h : ∀ row ∈ s.rows, row.status ≠ .failed)
    (e : PollMove A) :
    (∀ row ∈ (batchStep cfg serve parse s e).rows, row.status ≠ .failed) ↔
      NoneFails parse s e := by
  constructor
  · intro hn
    cases e with
    | fetch answers => trivial
    | select rank => trivial
    | attempt faults =>
      intro first hfr ho
      obtain ⟨rest, hb⟩ : ∃ rest, s.batch = first :: rest := head?_eq_some_iff.mp hfr
      obtain ⟨hst, hp⟩ := hs.stored first (hb ▸ mem_cons_self)
      rw [attempt_eq hb ho] at hn
      refine hn first.retried ?_ ((hs.once first hst).retried hp).1
      exact Table.mem_save.mpr (.inr ⟨rfl, first, hst, rfl⟩)
  · intro hf row hr
    rcases mem_step hr with hr | hw
    · exact h row hr
    · cases hw with
      | fetched i _ _ => simp [RpcEvent.row]
      | processed _ _ => simp [Row.processed]
      | failed hb ho =>
        exact absurd ho (hf _ (by rw [hb]; rfl))

theorem noneStranded_step_iff (s : Pipeline) (e : PollMove A) (hs : InHand cfg s)
    (h : NoneStranded cfg serve parse s) :
    NoneStranded cfg serve parse (batchStep cfg serve parse s e) ↔ NoneFails parse s e := by
  rw [noneStranded_iff (inHand_step s e hs)]
  exact noFailed_step_iff hs ((noneStranded_iff hs).mp h) e

theorem lettersCounted_of_inHand (p : Pipeline × List (Nat × Nat)) (hs : InHand cfg p.1) :
    LettersCounted p := by
  intro row hr hd
  rcases hs.once row hr with ⟨hp | hp, -⟩ | ⟨hf, -⟩
  all_goals simp_all

/-- No event is dead-lettered before its time: none ever is. And none is stranded exactly when no
failure is saved: a failed event is never selected again. -/
theorem events_not_stranded (cfg : Config) (serve : A → List Server) (parse : String → Payload)
    (es : List (PollMove A)) :
    AllStates (watch (batchStep cfg serve parse) (failureNote parse)) LettersCounted
        (.started, []) es ∧
      (AllStates (batchStep cfg serve parse) (NoneStranded cfg serve parse) .started es ↔
        AllSteps (batchStep cfg serve parse) (NoneFails parse) .started es) := by
  constructor
  · have ha : AllStates (watch (batchStep cfg serve parse) (failureNote parse))
        (fun p => InHand cfg p.1) (.started, []) es :=
      invariant_allStates (P := fun _ _ => True) (fun p e hp _ => inHand_step p.1 e hp)
        inHand_started (.trivial es)
    exact ha.mono lettersCounted_of_inHand
  · refine allStates_iff_allSteps (J := InHand cfg) inHand_step noneStranded_step_iff
      inHand_started ?_
    exact (noneStranded_iff inHand_started).mpr (fun _ hr => absurd hr not_mem_nil)

/-- Every payload is read as the same deposit. -/
def depositPayload (_ : String) : Payload :=
  [("owner", .text (.address 2)), ("amount", .number 500)]

/-- The database refuses one read, and the failure is saved. -/
def failedOnce : List (PollMove Poll) :=
  [.fetch ⟨[.page 200 5 true], 5⟩, .select fun _ => 0, .attempt [true]]

/-- One failure of five, and no poll after it comes to the event again. -/
theorem failedOnce_stranded :
    let serve := fun poll : Poll => poll.servers vaultOnly oneEvent
    let s := runFrom (batchStep vaultOnly serve depositPayload) .started failedOnce
    s.rows.map (fun row => (row.key, row.status, row.retryCount)) = [((1, 0), .failed, 1)] ∧
      ¬TakenUp vaultOnly serve depositPayload s (1, 0) := by
  intro serve s
  have hr : s.rows.map (fun row => (row.key, row.status, row.retryCount)) =
      [((1, 0), .failed, 1)] := by
    decide +kernel
  refine ⟨hr, ?_⟩
  obtain ⟨row, hrw, hf⟩ := mem_map.mp (hr ▸ mem_cons_self)
  obtain ⟨hk, hs, -⟩ : row.key = (1, 0) ∧ row.status = .failed ∧ row.retryCount = 1 := by
    simpa using hf
  rw [← hk]
  exact failed_not_taken (invariant_reachable inHand_step inHand_started failedOnce) hrw hs

end Stow.Indexer
