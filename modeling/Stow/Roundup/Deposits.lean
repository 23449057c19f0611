import Stow.Roundup.Hands

/-! Whether what the batches credit is what their records say. -/
namespace Stow.Roundup

open Stow.Lib Stow.Projection List

variable {configs : List RoundupConfig} {calculateRoundup : RoundupConfig → Int → Option Int}
  {start : Text → Int} {p : Pool RoundupDb Phase} {s : RoundupDb} {xs : List Phase}
  {log : List (List RoundupRecord)} {x y : Phase}

/-! ### Every move -/

theorem idle_over (returned : Bool) : (Phase.ended returned).Idle configs := ⟨rfl, trivial⟩

theorem idle_after (rest : List Nat) : (Phase.after rest).Idle configs := by
  cases rest <;> exact ⟨rfl, trivial⟩

theorem idle_withConfig {configId : Nat} {next : RoundupConfig → Phase}
    (h : ∀ config, configs.find? (·.id = configId) = some config → (next config).Idle configs)
    (turn : Turn) : (withConfig configs configId turn next).Idle configs := by
  unfold withConfig
  split_ifs
  · exact idle_over false
  · cases hf : configs.find? (·.id = configId) with
    | none => exact idle_over false
    | some config => exact h config hf

theorem idle_selecting (configId : Nat) (rest : List Nat) (turn : Turn) :
    (withConfig configs configId turn fun _ => .selecting configId rest).Idle configs := by
  refine idle_withConfig (fun _ _ => ?_) turn
  exact ⟨rfl, trivial⟩

theorem idle_recordPhase {configId : Nat} {config : RoundupConfig}
    (hf : configs.find? (·.id = configId) = some config) (userId : Text) (amount : Int) :
    (recordPhase calculateRoundup userId configId amount config).Idle configs := by
  unfold recordPhase
  split_ifs with hu
  · exact idle_over false
  · exact idle_over true
  · split
    · exact idle_over false
    · split_ifs
      · exact idle_over true
      · refine ⟨rfl, ?_⟩
        simpa [Phase.Fits, ownerOf, hf] using hu

variable {turn : Turn}

/-- Between two phases with nothing in hand. -/
theorem Sound.idle (h : Sound configs start s (x :: xs) log) (hh : x.held = [])
    (hy : y.Idle configs) : Sound configs start s (y :: xs) log :=
  h.release hy rfl rfl (by simp [hh, idsOf])

/-- Between two stages that ask the same of the records in hand. -/
theorem Sound.restage {w : Work} {stage stage' : Stage}
    (h : Sound configs start s (.working w stage :: xs) log)
    (hdu : ∀ id ∈ idsOf w.records, stage'.due id = stage.due id)
    (hc : (Phase.working w stage').credited = (Phase.working w stage).credited)
    (hd : (Phase.working w stage).credited = true → ∀ id, stage'.due id = .completed)
    (hf : stage'.Fits w) : Sound configs start s (.working w stage' :: xs) log := by
  refine h.keep rfl hc (g := id) (by simp) (fun _ => rfl) (fun _ _ _ => rfl) ?_ hd rfl
    hf
  intro r _ hid hs
  exact hs.trans (hdu r.id hid).symm

/-- A batch fails when its credit throws. -/
theorem Sound.fail {w : Work} {call : CreditCall}
    (h : Sound configs start s (.working w (.crediting call) :: xs) log)
    (hcr : (Phase.working w (.crediting call)).credited = false) :
    Sound configs start s (.working w (.failing w.records) :: xs) log := by
  refine h.restage (fun id hid => if_pos hid) hcr.symm (fun hc => ?_) (List.Sublist.refl _)
  rw [hcr] at hc
  cases hc

theorem sound_crediting {w : Work} {call : CreditCall}
    (h : Sound configs start p.state (.working w (.crediting call) :: xs) log)
    (hx : p.procs[turn.proc]? = some (.working w (.crediting call))) (ht : Orderly p turn) :
    Sound configs start ((Stage.crediting call).act w turn p.state).1
      (((Stage.crediting call).act w turn p.state).2 :: xs) (creditNote p turn log) := by
  have hf := (forall_mem_cons.mp h.procs).1.fits
  obtain ⟨amount, phase⟩ := call
  have hl : creditNote p turn log =
      if savesNow w ⟨amount, phase⟩ turn p.state.models then log ++ [w.records] else log := by
    simp only [creditNote, hx]
  rw [hl]
  cases phase with
  | called =>
    simp only [savesNow, Stage.act, CreditCall.act, Bool.false_eq_true, if_false]
    split_ifs
    · exact h.fail rfl
    · cases hn : creditedAmount (p.state.models.balances w.userId) (.num amount) with
      | none => exact h.fail rfl
      | some n =>
        exact h.restage (fun _ _ => rfl) rfl (fun hc => by cases hc)
          ⟨hf, creditedAmount_num hn⟩
  | loaded row newAmount =>
    by_cases hr : (turn.rejected ||
        row.isNone && (p.state.models.balances w.userId).isSome) = true
    · simp only [savesNow, Stage.act, CreditCall.act, hr, Bool.not_true, Bool.false_eq_true,
        if_true, if_false]
      exact h.fail rfl
    · have hr := Bool.eq_false_iff.mpr hr
      have ha : turn.rejected = false := (Bool.or_eq_false_iff.mp hr).1
      simp only [savesNow, Stage.act, CreditCall.act, hr, Bool.not_false, Bool.false_eq_true,
        if_true, if_false]
      exact h.credit ((ht _ hx).2.2 ha _ rfl)
  | saved =>
    have ha := ht.accepted hx rfl
    simp only [savesNow, Stage.act, CreditCall.act, ha, Bool.false_eq_true, if_false]
    exact h.restage (fun _ _ => rfl) rfl (fun _ _ => rfl) trivial
  | returned => exact h.restage (fun _ _ => rfl) rfl (fun _ _ => rfl) trivial
  | threw => exact h.fail rfl

theorem creditNote_other (hx : p.procs[turn.proc]? = some x)
    (h : ∀ w call, x ≠ .working w (.crediting call)) : creditNote p turn log = log := by
  unfold creditNote
  rw [hx]
  split
  · next heq => exact absurd (Option.some.inj heq) (h _ _)
  · rfl

theorem marks_processing (w : Work) :
    Marks w .marking (.completing w.records) .pending .processing where
  due _ _ := rfl
  last _ hid := if_pos hid
  credited := ⟨fun _ => rfl, rfl⟩
  fits := ⟨fun _ => Iff.rfl, List.Sublist.refl _⟩

theorem marks_completed (w : Work) :
    Marks w .completing (.crediting w.credit) .processing .completed where
  due _ _ := rfl
  last _ _ := rfl
  credited := ⟨fun _ => rfl, rfl⟩
  fits := ⟨fun _ => Iff.rfl, rfl⟩

theorem marks_failed (w : Work) : Marks w .failing (.closing .failed) .completed .failed where
  due _ _ := rfl
  last _ _ := rfl
  credited := ⟨fun _ => rfl, rfl⟩
  fits := ⟨fun _ => Iff.rfl, trivial⟩

theorem sound_working {w : Work} {stage : Stage}
    (h : Sound configs start s (.working w stage :: xs) log) (ha : turn.rejected = false)
    (hst : ∀ call, stage ≠ .crediting call) :
    Sound configs start (stage.act w turn s).1 ((stage.act w turn s).2 :: xs) log := by
  cases stage with
  | marking left =>
    simp only [Stage.act, ha, Bool.false_eq_true, if_false]
    exact h.mark (marks_processing w) fun r => ⟨rfl, rfl⟩
  | completing left =>
    simp only [Stage.act, ha, Bool.false_eq_true, if_false]
    exact h.mark (marks_completed w) fun r => ⟨rfl, rfl⟩
  | crediting call => exact absurd rfl (hst call)
  | failing left =>
    simp only [Stage.act, ha, Bool.false_eq_true, if_false]
    exact h.mark (marks_failed w) fun r => ⟨rfl, rfl⟩
  | closing status =>
    simp only [Stage.act, ha, Bool.false_eq_true, if_false]
    refine h.release (idle_after _) rfl rfl fun id _ => ?_
    by_cases hs : status = .completed
    · exact .inl ⟨by simp [Phase.credited, hs], by simp [Phase.due, Stage.due, hs]⟩
    · exact .inr (.inl (by simp [Phase.due, Stage.due, hs]))

/-- A call that awaits nothing else than a credit. -/
theorem sound_act (h : Sound configs start s (x :: xs) log) (hx : x.mayFail = false →
      turn.rejected = false) (hcr : ∀ w call, x ≠ .working w (.crediting call))
    (hfr : ∀ configId ∈ x.selects, ∀ r ∈ s.pending configId, r.id ∉ hands xs) :
    Sound configs start (x.act configs calculateRoundup turn s).1
      ((x.act configs calculateRoundup turn s).2 :: xs) log := by
  cases x with
  | working w stage =>
    have hst : ∀ call, stage ≠ .crediting call := fun call heq => hcr w call (by rw [heq])
    refine sound_working h (hx ?_) hst
    cases stage with
    | crediting call => exact absurd rfl (hst call)
    | _ => rfl
  | asked request =>
    cases request with
    | record userId configId amount =>
      exact h.idle rfl (idle_withConfig (fun config hf => idle_recordPhase hf userId amount)
        turn)
    | processConfig configId => exact h.idle rfl (idle_selecting configId [] turn)
    | processUser userId =>
      simp only [Phase.act, hx rfl, Bool.false_eq_true, if_false]
      exact h.idle rfl (idle_after _)
  | saving userId configId amount immediate =>
    simp only [Phase.act, hx rfl, Bool.false_eq_true, if_false]
    refine h.insert ?_
    split_ifs <;> exact ⟨rfl, trivial⟩
  | opening configId rest => exact h.idle rfl (idle_selecting configId rest turn)
  | selecting configId rest =>
    simp only [Phase.act, hx rfl, Bool.false_eq_true, if_false]
    split_ifs
    · exact h.idle rfl (idle_after rest)
    · exact h.take rfl (hfr configId rfl) rest
  | reopening records configId rest =>
    simp only [Phase.act, withConfig, hx rfl, Bool.false_eq_true, if_false]
    cases configs.find? (·.id = configId) with
    | none => exact h.release (idle_over false) rfl rfl fun _ _ => .inr (.inr rfl)
    | some config =>
      exact h.keep rfl rfl (g := id) (by simp) (fun _ => rfl) (fun _ _ _ => rfl)
        (fun _ _ _ hs => hs) (fun hc => by cases hc) rfl trivial
  | batching records rest =>
    simp only [Phase.act, hx rfl, Bool.false_eq_true, if_false]
    refine h.keep rfl rfl (g := id) ?_ (fun _ => rfl) (fun _ _ _ => rfl) ?_
      (fun hc => by cases hc) rfl (List.Sublist.refl _)
    · simp [RoundupDb.insertBatch]
    · intro r _ hid hs
      exact hs.trans (if_pos hid).symm
  | ended returned => exact h.idle rfl (idle_over returned)

theorem sound_step (h : Sound configs start p.state p.procs log) (ht : Orderly p turn) :
    Sound configs start (phaseStep configs calculateRoundup p turn).state
      (phaseStep configs calculateRoundup p turn).procs (creditNote p turn log) := by
  unfold phaseStep
  cases hx : p.procs[turn.proc]? with
  | none =>
    have hl : creditNote p turn log = log := by simp [creditNote, hx]
    rwa [Pool.step_of_none hx, hl]
  | some x =>
    obtain ⟨xs, hp, hst⟩ := Pool.perm_of_getElem? hx
    rw [Pool.step_of_some hx]
    refine Sound.of_perm ?_ (hst _).symm
    have h := h.of_perm hp
    by_cases hc : ∃ w call, x = .working w (.crediting call)
    · obtain ⟨w, call, rfl⟩ := hc
      exact sound_crediting h hx ht
    · rw [creditNote_other hx fun w call heq => hc ⟨w, call, heq⟩]
      refine sound_act h (ht.accepted hx) (fun w call heq => hc ⟨w, call, heq⟩) ?_
      intro configId hs r hr hin
      obtain ⟨y, hy, hid⟩ := mem_flatMap.mp hin
      exact (ht x hx).2.1 configId hs r hr y (hp.mem_iff.mpr (.tail _ hy)) hid

/-! ### Once all calls are over -/

def completedTotal (userId : Text) (records : List RoundupRecord) : Int :=
  totalOf (records.filter fun r => r.userId = userId ∧ r.status = .completed)

theorem sound_started (requests : List Request) (m : ReadModels) :
    Sound configs (fun userId => amountOf (m.balances userId)) (.started m) (requests.map .asked)
      [] := by
  have hh : hands (requests.map .asked) = [] := by simp [hands, Phase.held, idsOf]
  refine ⟨rfl, by simp [RoundupDb.started], ?_, hh ▸ .nil, .nil, by simp,
    by simp [RoundupDb.started], by simp [creditedTo, totalOf, RoundupDb.started]⟩
  refine forall_mem_map.mpr fun request _ => Phase.Idle.sound ?_ _ _
  exact ⟨rfl, trivial⟩

/-- What is left in nobody's hands is completed just if it was credited. -/
theorem Sound.credited_perm (h : Sound configs start s xs log) (ho : hands xs = []) :
    (log.flatten.map RoundupRecord.facts).Perm
      ((s.records.filter (·.status = .completed)).map RoundupRecord.facts) := by
  have hn : ∀ {records : List RoundupRecord}, (idsOf records).Nodup →
      (records.map RoundupRecord.facts).Nodup := by
    intro records hi
    refine List.Nodup.of_map Prod.fst ?_
    simpa [Function.comp_def, RoundupRecord.facts, idsOf] using hi
  have hrc : (idsOf (s.records.filter (·.status = .completed))).Nodup :=
    (filter_sublist.map _).nodup h.nodup_ids
  refine (perm_ext_iff_of_nodup (hn h.once) (hn hrc)).mpr fun facts => ?_
  constructor
  · intro hf
    obtain ⟨l, hl, rfl⟩ := mem_map.mp hf
    obtain ⟨r, hr, hrf, hs⟩ := h.completed l hl
    exact mem_map.mpr ⟨r, mem_filter.mpr ⟨hr, by simpa using hs⟩, hrf⟩
  · intro hf
    obtain ⟨r, hr, rfl⟩ := mem_map.mp hf
    obtain ⟨hr, hs⟩ := mem_filter.mp hr
    have hs : r.status = .completed := by simpa using hs
    rcases h.loose r hr (ho ▸ not_mem_nil) with hp | hfl | ⟨-, hlg⟩
    · rw [hs] at hp
      cases hp
    · rw [hs] at hfl
      cases hfl
    · obtain ⟨l, hl, hld⟩ := mem_idsOf.mp hlg
      obtain ⟨r', hr', hrf, -⟩ := h.completed l hl
      obtain rfl := h.unique hr' hr ((id_of_facts hrf).trans hld)
      exact mem_map.mpr ⟨l, hl, hrf.symm⟩

theorem creditedTo_eq_facts (userId : Text) (records : List RoundupRecord) :
    creditedTo userId records =
      (((records.map RoundupRecord.facts).filter (·.2.1 = userId)).map (·.2.2.2)).sum := by
  rw [filter_map, map_map]
  rfl

theorem Sound.completedTotal (h : Sound configs start s xs log) (ho : hands xs = [])
    (userId : Text) :
    creditedTo userId log.flatten = Roundup.completedTotal userId s.records := by
  have hf : Roundup.completedTotal userId s.records =
      creditedTo userId (s.records.filter (·.status = .completed)) := by
    simp [Roundup.completedTotal, creditedTo, filter_filter]
  rw [hf, creditedTo_eq_facts, creditedTo_eq_facts]
  exact (((h.credited_perm ho).filter _).map _).sum_eq

section

variable (configs : List RoundupConfig) (calculateRoundup : RoundupConfig → Int → Option Int)
  (requests : List Request) (m : ReadModels) (turns : List Turn)

/-- The calls with the record of what was credited. -/
def creditStep : Pool RoundupDb Phase × List (List RoundupRecord) → Turn →
    Pool RoundupDb Phase × List (List RoundupRecord) :=
  watch (phaseStep configs calculateRoundup) creditNote

/-- The records of each batch that was credited. -/
def creditLog : List (List RoundupRecord) :=
  (runFrom (creditStep configs calculateRoundup) (roundupPhases requests m, []) turns).2

end

/-- After an orderly run the balances have grown by the round-ups that are completed, and no
record was credited by two batches. -/
theorem roundups_deposited_once (configs : List RoundupConfig)
    (calculateRoundup : RoundupConfig → Int → Option Int) (requests : List Request)
    (m : ReadModels) (turns : List Turn)
    (horderly : AllSteps (creditStep configs calculateRoundup) (fun q turn => Orderly q.1 turn)
      (roundupPhases requests m, []) turns)
    (hover : (runFrom Calls.step (roundupCalls configs calculateRoundup requests m) turns).Over) :
    let s := (runFrom Calls.step (roundupCalls configs calculateRoundup requests m) turns).state
    (∀ userId, amountOf (s.models.balances userId) - amountOf (m.balances userId) =
      completedTotal userId s.records) ∧
    (idsOf (creditLog configs calculateRoundup requests m turns).flatten).Nodup := by
  have hs := invariant_run (I := fun q : Pool RoundupDb Phase × List (List RoundupRecord) =>
      Sound configs (fun userId => amountOf (m.balances userId)) q.1.state q.1.procs q.2)
    (fun q turn h ht => sound_step h ht) (sound_started requests m) horderly
  have hp : (runFrom (creditStep configs calculateRoundup) (roundupPhases requests m, [])
      turns).1 = runFrom (phaseStep configs calculateRoundup) (roundupPhases requests m) turns :=
    runFrom_watch _ creditNote _ turns
  rw [hp] at hs
  rw [run_roundupCalls] at hover ⊢
  refine ⟨fun userId => ?_, hs.once⟩
  have hover : hands (runFrom (phaseStep configs calculateRoundup) (roundupPhases requests m)
      turns).procs = [] := by
    refine flatMap_eq_nil_iff.mpr fun x hx => ?_
    obtain ⟨returned, rfl⟩ := over_of_ended (open_run requests m turns x hx)
      (hover _ (mem_map_of_mem hx))
    rfl
  show amountOf ((runFrom (phaseStep configs calculateRoundup) (roundupPhases requests m)
    turns).state.models.balances userId) - _ = completedTotal userId (runFrom (phaseStep configs
      calculateRoundup) (roundupPhases requests m) turns).state.records
  rw [hs.balance userId, ← hs.completedTotal hover userId]
  omega

def rounding (frequency : RoundupFrequency) : List RoundupConfig :=
  [⟨0, .address 2, frequency, 0, true, false⟩]

def takeAll (_ : RoundupConfig) (amount : Int) : Option Int := some amount

def turnsOf (proc n : Nat) : List Turn := replicate n ⟨proc, 0, false⟩

/-- Two round-ups one after the other. The save of the second credit is rejected. -/
def oneFails : List Turn := turnsOf 0 12 ++ turnsOf 1 9 ++ ⟨1, 0, true⟩ :: turnsOf 1 2

/-- The first is deposited, and the second has failed. -/
theorem one_of_two_deposited :
    let s := (runFrom Calls.step (roundupCalls (rounding .immediate) takeAll
      [.record (.address 2) 0 7, .record (.address 2) 0 5] .empty) oneFails).state
    amountOf (s.models.balances (.address 2)) - amountOf (ReadModels.empty.balances (.address 2)) =
      completedTotal (.address 2) s.records :=
  (roundups_deposited_once _ _ _ _ _ (by decide +kernel) (by decide +kernel)).1 _

/-- Both calls select the record before either marks it. -/
def selectedTwice : List Turn :=
  turnsOf 0 2 ++ turnsOf 1 2 ++ turnsOf 2 2 ++ turnsOf 1 8 ++ turnsOf 2 8

/-- The credit is saved, and then the cache cannot be cleared. -/
def failedAfterSave : List Turn := turnsOf 0 10 ++ ⟨0, 0, true⟩ :: turnsOf 0 2

/-- A round-up of 7 is credited twice, in two batches. Where the credit fails after its save, it is
credited once and counts as failed. -/
theorem roundup_deposited_twice :
    let twice := runFrom Calls.step (roundupCalls (rounding .daily) takeAll
      [.record (.address 2) 0 7, .processConfig 0, .processConfig 0] .empty) selectedTwice
    let failed := runFrom Calls.step (roundupCalls (rounding .immediate) takeAll
      [.record (.address 2) 0 7] .empty) failedAfterSave
    (twice.Over ∧ amountOf (twice.state.models.balances (.address 2)) = 14 ∧
      completedTotal (.address 2) twice.state.records = 7 ∧
      creditLog (rounding .daily) takeAll
        [.record (.address 2) 0 7, .processConfig 0, .processConfig 0] .empty selectedTwice =
          [[⟨0, .address 2, 0, .pending, 7, none⟩], [⟨0, .address 2, 0, .pending, 7, none⟩]]) ∧
    failed.Over ∧ amountOf (failed.state.models.balances (.address 2)) = 7 ∧
      completedTotal (.address 2) failed.state.records = 0 := by
  decide +kernel

end Stow.Roundup
