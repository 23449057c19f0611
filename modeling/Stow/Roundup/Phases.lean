import Mathlib.Data.List.InsertIdx
import Stow.Projection.Credits
import Stow.Roundup.Service

/-! The phases of the calls of the round-up service, and that the calls go through them. -/
namespace Stow.Roundup

open Stow.Lib Stow.Projection Async

/-- A batch in hand: its records as they were read, and the configurations that come after it. -/
structure Work where
  records : List RoundupRecord
  batchId : Nat
  rest : List Nat

/-- Where a batch is, with the records that are left to be marked. -/
inductive Stage where
  | marking (left : List RoundupRecord)
  | completing (left : List RoundupRecord)
  | crediting (call : CreditCall)
  | failing (left : List RoundupRecord)
  | closing (status : RoundupBatchStatus)

inductive Phase where
  | asked (request : Request)
  | saving (userId : Text) (configId : Nat) (roundupAmount : Int) (immediate : Bool)
  | opening (configId : Nat) (rest : List Nat)
  | selecting (configId : Nat) (rest : List Nat)
  | reopening (records : List RoundupRecord) (configId : Nat) (rest : List Nat)
  | batching (records : List RoundupRecord) (rest : List Nat)
  | working (work : Work) (stage : Stage)
  | ended (returned : Bool)

def Work.userId (w : Work) : Text := (w.records.head?.map (·.userId)).getD (.str "")

def Work.credit (w : Work) : CreditCall := ⟨totalOf w.records, .called⟩

def Work.close (w : Work) (status : RoundupBatchStatus) (s : RoundupDb) : RoundupDb :=
  s.saveBatch w.batchId fun batch => { batch with
    status := status
    successfulCount := if status = .completed then w.records.length else batch.successfulCount }

/-! ### What is left of a call -/

def Stage.task (w : Work) : Stage → Call Unit
  | .marking left => do
    all (left.map (markProcessing w.batchId))
    settleBatch w.records w.batchId (simulateDepositSuccess w.records)
  | .completing left => settleBatch w.records w.batchId do
    all (left.map markCompleted)
    match w.records with
    | [] => .failed
    | first :: _ => creditUser first.userId (totalOf w.records)
  | .crediting call => settleBatch w.records w.batchId
    ((call.task w.userId).zoom RoundupDb.models RoundupDb.setModels)
  | .failing left => do
    let status ← (do all (left.map markFailed); pure RoundupBatchStatus.failed)
    write (w.close status)
  | .closing status => write (w.close status)

section

variable (configs : List RoundupConfig) (calculateRoundup : RoundupConfig → Int → Option Int)

def Phase.task : Phase → Call Unit
  | .asked request => request.call configs calculateRoundup
  | .saving userId configId roundupAmount immediate => do
    write (·.insertRecord userId configId roundupAmount)
    if immediate then processRecordsForConfig configs configId else pure ()
  | .opening configId rest => processEach configs (configId :: rest)
  | .selecting configId rest => do
    (do
      let pending ← read (·.pending configId)
      if pending.length = 0 then pure () else processBatch configs pending configId)
    processEach configs rest
  | .reopening records configId rest => do
    processBatch configs records configId
    processEach configs rest
  | .batching records rest => do
    (do
      let batchId ← writeRead
        (·.insertBatch ⟨records.length, totalOf records, .processing, 0⟩) (·.batches.length)
      all (records.map (markProcessing batchId))
      settleBatch records batchId (simulateDepositSuccess records))
    processEach configs rest
  | .working w stage => do
    stage.task w
    processEach configs w.rest
  | .ended true => pure ()
  | .ended false => .failed

/-! ### The moves -/

def Phase.after : List Nat → Phase
  | [] => .ended true
  | configId :: rest => .opening configId rest

def Stage.afterMarking (w : Work) (left : List RoundupRecord) : Stage :=
  if left = [] then .completing w.records else .marking left

def Stage.afterCompleting (w : Work) (left : List RoundupRecord) : Stage :=
  if left = [] then .crediting w.credit else .completing left

def Stage.afterCrediting (w : Work) (call : CreditCall) : Stage :=
  match call.phase with
  | .returned => .closing .completed
  | .threw => .failing w.records
  | _ => .crediting call

def Stage.afterFailing (left : List RoundupRecord) : Stage :=
  if left = [] then .closing .failed else .failing left

/-- The record that is marked next. -/
def markOne (mark : RoundupRecord → RoundupDb → RoundupDb) (left : List RoundupRecord)
    (turn : Turn) (s : RoundupDb) : RoundupDb :=
  (left[turn.choice % left.length]?).elim s (mark · s)

def unmarked (left : List RoundupRecord) (turn : Turn) : List RoundupRecord :=
  left.eraseIdx (turn.choice % left.length)

/-- A rejection ends the call, except that in the deposit it fails the batch. -/
def Stage.act (w : Work) (stage : Stage) (turn : Turn) (s : RoundupDb) : RoundupDb × Phase :=
  match stage with
  | .marking left =>
    if turn.rejected then (s, .ended false)
    else (markOne (markProcessing w.batchId) left turn s,
      .working w (.afterMarking w (unmarked left turn)))
  | .completing left =>
    if turn.rejected then (s, .working w (.failing w.records))
    else (markOne markCompleted left turn s, .working w (.afterCompleting w (unmarked left turn)))
  | .crediting call =>
    let r := call.act w.userId turn s.models
    (s.setModels r.1, .working w (.afterCrediting w r.2))
  | .failing left =>
    if turn.rejected then (s, .ended false)
    else (markOne markFailed left turn s, .working w (.afterFailing (unmarked left turn)))
  | .closing status =>
    if turn.rejected then (s, .ended false) else (w.close status s, .after w.rest)

/-- What a call to record a round-up does once it has its configuration. -/
def recordPhase (userId : Text) (configId : Nat) (amount : Int) (config : RoundupConfig) : Phase :=
  if config.userId ≠ userId then .ended false
  else if config.isPaused || !config.isActive then .ended true
  else
    match calculateRoundup config amount with
    | none => .ended false
    | some roundupAmount =>
      if roundupAmount < config.minRoundupAmount then .ended true
      else .saving userId configId roundupAmount (config.frequency = .immediate)

/-- Goes on with the configuration, if it is there. -/
def withConfig (configId : Nat) (turn : Turn) (next : RoundupConfig → Phase) : Phase :=
  if turn.rejected then .ended false
  else (configs.find? (·.id = configId)).elim (.ended false) next

def Phase.act (phase : Phase) (turn : Turn) (s : RoundupDb) : RoundupDb × Phase :=
  match phase with
  | .asked (.record userId configId amount) =>
    (s, withConfig configs configId turn (recordPhase calculateRoundup userId configId amount))
  | .asked (.processConfig configId) =>
    (s, withConfig configs configId turn fun _ => .selecting configId [])
  | .asked (.processUser userId) =>
    (s, if turn.rejected then .ended false
      else .after ((listActiveConfigs configs userId).map (·.id)))
  | .saving userId configId roundupAmount immediate =>
    if turn.rejected then (s, .ended false)
    else (s.insertRecord userId configId roundupAmount,
      if immediate then .opening configId [] else .ended true)
  | .opening configId rest =>
    (s, withConfig configs configId turn fun _ => .selecting configId rest)
  | .selecting configId rest =>
    (s, if turn.rejected then .ended false
      else if (s.pending configId).length = 0 then .after rest
      else .reopening (s.pending configId) configId rest)
  | .reopening records configId rest =>
    (s, withConfig configs configId turn fun _ => .batching records rest)
  | .batching records rest =>
    if turn.rejected then (s, .ended false)
    else (s.insertBatch ⟨records.length, totalOf records, .processing, 0⟩,
      .working ⟨records, s.batches.length, rest⟩ (.marking records))
  | .working w stage => stage.act w turn s
  | .ended returned => (s, .ended returned)

end

/-! ### The calls go through the phases -/

/-- There is something to do in every stage. -/
def Stage.Open (w : Work) : Stage → Prop
  | .marking left | .completing left | .failing left => w.records ≠ [] ∧ left ≠ []
  | .crediting call => w.records ≠ [] ∧ (call.task w.userId).ended = false
  | .closing _ => True

def Phase.Open : Phase → Prop
  | .reopening records _ _ | .batching records _ => records ≠ []
  | .working w stage => stage.Open w
  | _ => True

variable {configs : List RoundupConfig} {calculateRoundup : RoundupConfig → Int → Option Int}
  {w : Work} {stage : Stage} {turn : Turn} {s : RoundupDb}

theorem task_afterMarking (w : Work) (left : List RoundupRecord) :
    (Stage.afterMarking w left).task w = (Stage.marking left).task w := by
  unfold Stage.afterMarking
  split_ifs with h
  · subst h
    rfl
  · rfl

theorem task_afterCompleting (h : w.records ≠ []) (left : List RoundupRecord) :
    (Stage.afterCompleting w left).task w = (Stage.completing left).task w := by
  unfold Stage.afterCompleting
  split_ifs with hl
  · subst hl
    obtain ⟨records, batchId, rest⟩ := w
    cases records with
    | nil => exact absurd rfl h
    | cons first others => rfl
  · rfl

theorem task_afterCrediting (w : Work) (call : CreditCall) :
    (Stage.afterCrediting w call).task w = (Stage.crediting call).task w := by
  obtain ⟨amount, phase⟩ := call
  cases phase <;> rfl

theorem task_afterFailing (w : Work) (left : List RoundupRecord) :
    (Stage.afterFailing left).task w = (Stage.failing left).task w := by
  unfold Stage.afterFailing
  split_ifs with h
  · subst h
    rfl
  · rfl

theorem task_after (rest : List Nat) :
    (Phase.after rest).task configs calculateRoundup = processEach configs rest := by
  cases rest <;> rfl

theorem ended_marks {left : List RoundupRecord} (h : left ≠ [])
    (mark : RoundupRecord → RoundupDb → RoundupDb) : (all (left.map mark)).ended = false :=
  ended_all (by simpa using h)

theorem resume_all_map {left : List RoundupRecord} (h : left ≠ [])
    (mark : RoundupRecord → RoundupDb → RoundupDb) (turn : Turn) (s : RoundupDb) :
    (all (left.map mark)).resume turn s =
      if turn.rejected then (s, .failed)
      else (markOne mark left turn s, all ((unmarked left turn).map mark)) := by
  rw [resume_all (by simpa using h), List.length_map]
  have hm : (left.map mark).getD (turn.choice % left.length) id s =
      markOne mark left turn s := by
    unfold markOne
    rw [List.getD_eq_getElem?_getD, List.getElem?_map]
    cases left[turn.choice % left.length]? <;> rfl
  rw [hm, unmarked, List.eraseIdx_map]

theorem resume_settleBatch {deposit : Call Unit} (h : deposit.ended = false)
    (records : List RoundupRecord) (batchId : Nat) (turn : Turn) (s : RoundupDb) :
    (settleBatch records batchId deposit).resume turn s =
      ((deposit.resume turn s).1, settleBatch records batchId (deposit.resume turn s).2) := by
  unfold settleBatch
  rw [resume_bind (ended_catching (ended_bind h _) _),
    resume_catching (ended_bind h _), resume_bind h]

theorem ended_task (hs : stage.Open w) : (stage.task w).ended = false := by
  cases stage with
  | marking left => exact ended_bind (ended_marks hs.2 _) _
  | completing left =>
    exact ended_bind (ended_catching (ended_bind (ended_bind (ended_marks hs.2 _) _) _) _) _
  | crediting call => exact ended_bind (ended_catching (ended_bind (ended_zoom hs.2 _ _) _) _) _
  | failing left => exact ended_bind (ended_bind (ended_marks hs.2 _) _) _
  | closing status => rfl

theorem resume_working (hs : stage.Open w) (turn : Turn) (s : RoundupDb) :
    (Phase.task configs calculateRoundup (.working w stage)).resume turn s =
      ((stage.act w turn s).1, (stage.act w turn s).2.task configs calculateRoundup) := by
  rw [Phase.task, resume_bind (ended_task hs)]
  cases stage with
  | marking left =>
    simp only [Stage.task, Stage.act]
    rw [resume_bind (ended_marks hs.2 _), resume_all_map hs.2]
    split_ifs
    · rfl
    · rw [Phase.task, task_afterMarking]
      rfl
  | completing left =>
    -- the batch fails where the records cannot be marked
    have he := ended_marks hs.2 markCompleted
    simp only [Stage.task, Stage.act]
    rw [resume_settleBatch (ended_bind he _), resume_bind he, resume_all_map hs.2]
    split_ifs
    · rfl
    · rw [Phase.task, task_afterCompleting hs.1]
      rfl
  | crediting call =>
    simp only [Stage.task, Stage.act]
    rw [resume_settleBatch (ended_zoom hs.2 _ _), resume_zoom hs.2 (fun _ => rfl), resume_task,
      Phase.task, task_afterCrediting]
    rfl
  | failing left =>
    have he := ended_marks hs.2 markFailed
    simp only [Stage.task, Stage.act]
    rw [resume_bind (ended_bind he _), resume_bind he, resume_all_map hs.2]
    split_ifs
    · rfl
    · rw [Phase.task, task_afterFailing]
      rfl
  | closing status =>
    have hw : ((Stage.closing status).task w).resume turn s =
        if turn.rejected then (s, .failed) else (w.close status s, pure ()) := rfl
    rw [hw, Stage.act]
    split_ifs
    · rfl
    · rw [task_after]
      rfl

theorem resume_getConfig_bind {α : Type} (configId : Nat) (k : RoundupConfig → Call α)
    (turn : Turn) (s : RoundupDb) :
    (getConfig configs configId >>= k).resume turn s =
      (s, if turn.rejected then .failed
        else (configs.find? (·.id = configId)).elim .failed k) := by
  show (if turn.rejected then (s, .failed)
    else (s, (orThrow (configs.find? (·.id = configId))).bind k)) = _
  split_ifs
  · rfl
  · cases configs.find? (·.id = configId) <;> rfl

theorem task_withConfig (configId : Nat) (turn : Turn) (next : RoundupConfig → Phase) :
    (withConfig configs configId turn next).task configs calculateRoundup =
      if turn.rejected then .failed
      else (configs.find? (·.id = configId)).elim .failed
        fun config => (next config).task configs calculateRoundup := by
  unfold withConfig
  split_ifs
  · rfl
  · cases configs.find? (·.id = configId) <;> rfl

theorem processEach_singleton (configId : Nat) :
    processEach configs [configId] = processRecordsForConfig configs configId :=
  bind_pure_unit _

theorem resume_opening (configId : Nat) (rest : List Nat) (turn : Turn) (s : RoundupDb) :
    (processEach configs (configId :: rest)).resume turn s =
      (s, (withConfig configs configId turn fun _ => .selecting configId rest).task configs
        calculateRoundup) := by
  rw [task_withConfig]
  unfold processEach processRecordsForConfig
  rw [resume_bind rfl, resume_getConfig_bind]
  split_ifs
  · rfl
  · cases configs.find? (·.id = configId) <;> rfl

theorem resume_recordRoundup (userId : Text) (configId : Nat) (amount : Int) (turn : Turn)
    (s : RoundupDb) :
    (recordRoundup configs calculateRoundup userId configId amount).resume turn s =
      (s, (withConfig configs configId turn
        (recordPhase calculateRoundup userId configId amount)).task configs calculateRoundup) := by
  rw [task_withConfig]
  unfold recordRoundup
  rw [resume_getConfig_bind]
  split_ifs
  · rfl
  · cases configs.find? (·.id = configId) with
    | none => rfl
    | some config =>
      simp only [Option.elim_some, recordPhase]
      by_cases hu : config.userId ≠ userId
      · rw [if_pos hu, if_pos hu]
        rfl
      rw [if_neg hu, if_neg hu]
      by_cases ho : (config.isPaused || !config.isActive) = true
      · rw [if_pos ho, if_pos ho]
        rfl
      rw [if_neg ho, if_neg ho]
      cases calculateRoundup config amount with
      | none => rfl
      | some roundupAmount =>
        by_cases hm : roundupAmount < config.minRoundupAmount
        · simp [hm, Phase.task]
        · simp [hm, Phase.task]

/-- A call does what its phase does. -/
theorem resume_phase {phase : Phase} (hp : phase.Open) (turn : Turn) (s : RoundupDb) :
    (phase.task configs calculateRoundup).resume turn s =
      ((phase.act configs calculateRoundup turn s).1,
        (phase.act configs calculateRoundup turn s).2.task configs calculateRoundup) := by
  cases phase with
  | asked request =>
    cases request with
    | record userId configId amount => exact resume_recordRoundup userId configId amount turn s
    | processConfig configId =>
      refine Eq.trans ?_ (resume_opening configId [] turn s)
      rw [processEach_singleton]
      rfl
    | processUser userId =>
      refine (resume_read_bind _ _ turn s).trans ?_
      simp only [Phase.act]
      split_ifs
      · rfl
      · rw [task_after]
  | saving userId configId roundupAmount immediate =>
    have hw : (Phase.task configs calculateRoundup
        (.saving userId configId roundupAmount immediate)).resume turn s =
        if turn.rejected then (s, .failed)
        else (s.insertRecord userId configId roundupAmount,
          if immediate then processRecordsForConfig configs configId else pure ()) := rfl
    rw [hw, Phase.act]
    split_ifs with hr hi
    · rfl
    · rw [Phase.task, processEach_singleton]
    · rfl
  | opening configId rest => exact resume_opening configId rest turn s
  | selecting configId rest =>
    rw [Phase.task, resume_bind rfl, resume_read_bind, Phase.act]
    split_ifs
    · rfl
    · rw [task_after]
      rfl
    · rfl
  | reopening records configId rest =>
    rw [Phase.task, processBatch, resume_bind rfl, resume_getConfig_bind, Phase.act,
      task_withConfig]
    split_ifs
    · rfl
    · cases configs.find? (·.id = configId) <;> rfl
  | batching records rest =>
    have hw : (Phase.task configs calculateRoundup (.batching records rest)).resume turn s =
        if turn.rejected then (s, .failed)
        else (s.insertBatch ⟨records.length, totalOf records, .processing, 0⟩,
          Phase.task configs calculateRoundup
            (.working ⟨records, s.batches.length, rest⟩ (.marking records))) := rfl
    rw [hw, Phase.act]
    split_ifs <;> rfl
  | working w stage => exact resume_working hp turn s
  | ended returned => cases returned <;> rfl

theorem open_withConfig {next : RoundupConfig → Phase} (h : ∀ config, (next config).Open)
    (configId : Nat) (turn : Turn) : (withConfig configs configId turn next).Open := by
  unfold withConfig
  split_ifs
  · trivial
  · cases configs.find? (·.id = configId) with
    | none => trivial
    | some config => exact h config

theorem open_after (rest : List Nat) : (Phase.after rest).Open := by
  cases rest <;> trivial

theorem open_stage (hs : stage.Open w) : (stage.act w turn s).2.Open := by
  cases stage with
  | marking left =>
    simp only [Stage.act, Stage.afterMarking]
    split_ifs with hr hl
    · trivial
    · exact ⟨hs.1, hs.1⟩
    · exact ⟨hs.1, hl⟩
  | completing left =>
    simp only [Stage.act, Stage.afterCompleting]
    split_ifs with hr hl
    · exact ⟨hs.1, hs.1⟩
    · exact ⟨hs.1, rfl⟩
    · exact ⟨hs.1, hl⟩
  | crediting call =>
    simp only [Stage.act, Stage.afterCrediting]
    cases hp : (call.act w.userId turn s.models).2.phase with
    | returned => trivial
    | threw => exact ⟨hs.1, hs.1⟩
    | _ => exact ⟨hs.1, by rw [CreditCall.task, hp]; rfl⟩
  | failing left =>
    simp only [Stage.act, Stage.afterFailing]
    split_ifs with hr hl
    · trivial
    · trivial
    · exact ⟨hs.1, hl⟩
  | closing status =>
    simp only [Stage.act]
    split_ifs
    · trivial
    · exact open_after _

theorem open_act {phase : Phase} (hp : phase.Open) (turn : Turn) (s : RoundupDb) :
    (phase.act configs calculateRoundup turn s).2.Open := by
  cases phase with
  | asked request =>
    cases request with
    | record userId configId amount =>
      refine open_withConfig (fun config => ?_) configId turn
      unfold recordPhase
      repeat' first | split | trivial
    | processConfig configId =>
      refine open_withConfig (fun _ => ?_) configId turn
      trivial
    | processUser userId =>
      simp only [Phase.act]
      split_ifs
      · trivial
      · exact open_after _
  | saving userId configId roundupAmount immediate =>
    simp only [Phase.act]
    split_ifs <;> trivial
  | opening configId rest =>
    refine open_withConfig (fun _ => ?_) configId turn
    trivial
  | selecting configId rest =>
    simp only [Phase.act]
    split_ifs with hr hn
    · trivial
    · exact open_after _
    · exact fun hnl => hn (by rw [hnl]; rfl)
  | reopening records configId rest =>
    refine open_withConfig (fun _ => ?_) configId turn
    exact hp
  | batching records rest =>
    simp only [Phase.act]
    split_ifs
    · trivial
    · exact ⟨hp, hp⟩
  | working w stage => exact open_stage hp
  | ended returned => trivial

/-- Only a call that is over has nothing to wait for. -/
theorem over_of_ended {phase : Phase} (hp : phase.Open)
    (h : (phase.task configs calculateRoundup).ended = true) :
    ∃ returned, phase = .ended returned := by
  cases phase with
  | asked request => cases request <;> cases h
  | working w stage =>
    have he : (Phase.task configs calculateRoundup (.working w stage)).ended = false :=
      ended_bind (ended_task hp) _
    rw [he] at h
    cases h
  | ended returned => exact ⟨returned, rfl⟩
  | _ => cases h

/-! ### All calls together -/

section

variable (configs : List RoundupConfig) (calculateRoundup : RoundupConfig → Int → Option Int)
  (requests : List Request) (m : ReadModels)

def RoundupDb.started : RoundupDb := ⟨[], [], m⟩

def roundupCalls : Calls RoundupDb Unit :=
  ⟨.started m, requests.map (Request.call configs calculateRoundup)⟩

def roundupPhases : Pool RoundupDb Phase := ⟨.started m, requests.map .asked⟩

def phaseStep : Pool RoundupDb Phase → Turn → Pool RoundupDb Phase :=
  Pool.step (Phase.act configs calculateRoundup)

end

theorem open_asked (requests : List Request) (m : ReadModels) :
    ∀ x ∈ (roundupPhases requests m).procs, x.Open := by
  intro x hx
  obtain ⟨request, -, rfl⟩ := List.mem_map.mp hx
  trivial

theorem open_run (requests : List Request) (m : ReadModels) (turns : List Turn) :
    ∀ x ∈ (runFrom (phaseStep configs calculateRoundup) (roundupPhases requests m) turns).procs,
      x.Open := by
  refine invariant_reachable (I := fun p : Pool RoundupDb Phase => ∀ x ∈ p.procs, x.Open) ?_
    (open_asked requests m) turns
  intro p turn h
  unfold phaseStep
  cases hx : p.procs[turn.proc]? with
  | none => rwa [Pool.step_of_none hx]
  | some x =>
    rw [Pool.step_of_some hx]
    exact Pool.forall_mem_set h (open_act (h x (List.mem_of_getElem? hx)) turn p.state)

theorem run_roundupCalls (requests : List Request) (m : ReadModels) (turns : List Turn) :
    runFrom Calls.step (roundupCalls configs calculateRoundup requests m) turns =
      (runFrom (phaseStep configs calculateRoundup) (roundupPhases requests m) turns).map
        (Phase.task configs calculateRoundup) := by
  unfold phaseStep
  rw [← Pool.run_map (I := Phase.Open) (fun x turn s hx => resume_phase hx turn s)
    (fun x turn s hx => open_act hx turn s) (open_asked requests m)]
  have hc : Phase.task configs calculateRoundup ∘ Phase.asked =
      Request.call configs calculateRoundup := rfl
  simp [Calls.step, roundupCalls, roundupPhases, Pool.map, hc]

end Stow.Roundup
