import Stow.Adapter.Solvency

/-! What the performance fee is charged on. -/
namespace Stow.Adapter

open Stow.Lib Stow.Lib.Contract

variable {self : Address} {s t : Sys World} {ctx : Ctx} {op : Op}

/-- What a run has moved and earned. `moved` counts what calls put into strategies since the last
harvest, less what they took out. -/
structure Tally where
  moved : Int
  credited : Int
  earned : Int
  deriving Repr, DecidableEq

def Op.isHarvest : Op → Bool
  | .harvest _ => true
  | _ => false

/-- The yield that an event of the world earns. -/
def Outside.earned : Outside → Int
  | .gain _ delta => max delta 0
  | _ => 0

def Tally.note (self : Address) (s : Sys World) (m : Move Outside) (g : Tally) : Tally :=
  match m with
  | .world e => { g with earned := g.earned + e.earned }
  | .call ctx op =>
    let t := (exec (honest self) ctx op).after s
    { g with
      moved := if op.isHarvest ∧ (exec (honest self) ctx op).succeeds s then 0
        else g.moved + (t.claimed - s.claimed)
      credited := g.credited + max (t.store.feesAccrued - s.store.feesAccrued) 0 }

/-- The adapter together with its tally. -/
def tallied (self : Address) : Sys World × Tally → Move Outside → Sys World × Tally :=
  watch (step (honest self) (outside self)) (Tally.note self)

/-- A fresh deployment, with nothing in any strategy. -/
def untouched (tokens : Ledger Address) : Sys World × Tally :=
  (⟨.deployed, [], ⟨tokens, .empty⟩⟩, ⟨0, 0, 0⟩)

/-- Yield that no harvest has been charged for: what sits in other strategies, and what the active
one holds above its checkpoint and the principal moved since. -/
def Sys.unharvested (self : Address) (s : Sys World) (moved : Int) : Int :=
  (s.claimed - s.live self) + max (s.live self - s.store.deployedBalance - moved) 0

theorem Sys.unharvested_nonneg (self : Address) (s : Sys World) (moved : Int) :
    0 ≤ s.unharvested self moved := by
  have hle := s.live_le_claimed self
  unfold Sys.unharvested
  omega

/-- Depositors move principal between the wallet and the active strategy only. -/
theorem Trade.basis (h : Trade self ctx op s t) :
    t.claimed - s.claimed = t.live self - s.live self ∧
      t.store.deployedBalance = s.store.deployedBalance ∧
      t.store.feesAccrued ≤ s.store.feesAccrued := by
  cases h with
  | mint items hi hs hg hc =>
    exact ⟨hc, by rw [hs], by rw [hs]⟩
  | request owner shares assets position hsl hps hsh ha hr hft hs hw =>
    obtain ⟨hl, hc⟩ := Sys.live_congr (s := s) (t := t) self (by rw [hs]; rfl) (by rw [hw])
    exact ⟨by omega, by rw [hs], by rw [hs]⟩
  | claim id r hgt hp hs hg hc =>
    exact ⟨hc, by rw [hs]; rfl, by rw [hs]; exact le_rfl⟩
  | cancel id r shares hgt hp hsh hm hs hw =>
    obtain ⟨hl, hc⟩ := Sys.live_congr (s := s) (t := t) self (by rw [hs]; rfl) (by rw [hw])
    exact ⟨by omega, by rw [hs]; rfl, by rw [hs]; exact le_rfl⟩
  | sweep treasury hf hs hg hcl =>
    obtain ⟨hl, hc⟩ := Sys.live_congr self (by rw [hs]; rfl) hcl
    exact ⟨by omega, by rw [hs]; rfl, by rw [hs]; exact hf.le⟩

/-- No call but a harvest makes yield out of principal, or credits a fee. -/
theorem Effect.unharvested (h : Effect self ctx op s t) (hop : op.isHarvest = false)
    (hwf : WellFormed s.store) (moved : Int) :
    t.store.feesAccrued ≤ s.store.feesAccrued ∧
      t.unharvested self (moved + (t.claimed - s.claimed)) ≤ s.unharvested self moved := by
  unfold Sys.unharvested
  cases h with
  | trade h =>
    obtain ⟨hc, hd, hf⟩ := h.basis
    exact ⟨hf, by omega⟩
  | config hb hw =>
    obtain ⟨hl, hc⟩ := Sys.live_congr self hb.active (by rw [hw])
    have hd := hb.deployedBalance
    exact ⟨hb.feesAccrued.le, by omega⟩
  | seeded admin treasury token ha hs hw =>
    obtain ⟨hl, hc⟩ := Sys.live_congr (s := s) (t := t) self (by rw [hs]; rfl) (by rw [hw])
    have hd : t.store.deployedBalance = s.store.deployedBalance := by rw [hs]; rfl
    exact ⟨by rw [hs]; exact hwf.limits.fees_nonneg, by omega⟩
  | harvest caller hh hs hw => simp [hh, Op.isHarvest] at hop
  | retarget id hs hi hl hc =>
    have hd : t.store.deployedBalance = s.store.deployedBalance := by rw [hs]; rfl
    exact ⟨by rw [hs]; exact le_rfl, by omega⟩
  | recalled hs hi hc =>
    have hd : t.store.deployedBalance = s.store.deployedBalance := by rw [hs]; rfl
    have hl : t.live self = 0 := by
      simp [Sys.live, World.liveOn, Store.activeAddress, Store.activeInfo, Store.setActive, hs]
    exact ⟨by rw [hs]; exact le_rfl, by omega⟩

/-- What a harvest credits is its rate of the yield it uses up, if no principal was moved in. -/
theorem feeDue_mul_le (hwf : WellFormed s.store) {moved : Int}
    (hm : moved ≤ 0 ∨ s.feeDue self = 0) :
    10000 * s.feeDue self + maxPerformanceFeeBps * (s.claimed - s.live self) ≤
      maxPerformanceFeeBps * s.unharvested self moved := by
  have hb : (s.store.performanceFeeBps : Int) ≤ maxPerformanceFeeBps := by
    exact_mod_cast hwf.limits.bps_le
  have hmx : (0 : Int) ≤ maxPerformanceFeeBps := by decide
  suffices h : 10000 * s.feeDue self ≤
      maxPerformanceFeeBps * max (s.live self - s.store.deployedBalance - moved) 0 by
    unfold Sys.unharvested
    rw [mul_add]
    omega
  rcases hm with hm | hf
  · by_cases hd : 0 < s.live self - s.store.deployedBalance
    · have hf : s.feeDue self * 10000 ≤
          (s.live self - s.store.deployedBalance) * s.store.performanceFeeBps := feeOn_mul_le hd
      calc 10000 * s.feeDue self
          ≤ (s.live self - s.store.deployedBalance) * s.store.performanceFeeBps := by
            rw [mul_comm]
            exact hf
        _ ≤ maxPerformanceFeeBps * (s.live self - s.store.deployedBalance) := by
            rw [mul_comm]
            exact mul_le_mul_of_nonneg_right hb hd.le
        _ ≤ maxPerformanceFeeBps * max (s.live self - s.store.deployedBalance - moved) 0 :=
            mul_le_mul_of_nonneg_left (by omega) hmx
    · have hz : s.feeDue self = 0 := if_neg hd
      rw [hz]
      exact mul_nonneg hmx (le_max_right _ _)
  · rw [hf]
    exact mul_nonneg hmx (le_max_right _ _)

/-- The principal moved in since the last harvest is not positive whenever a fee is due. -/
def ChargesYield (self : Address) (p : Sys World × Tally) : Move Outside → Prop
  | .call _ (.harvest _) => p.2.moved ≤ 0 ∨ p.1.feeDue self = 0
  | _ => True

variable {p : Sys World × Tally}

theorem chargesYield_call :
    (op.isHarvest = true → p.2.moved ≤ 0 ∨ p.1.feeDue self = 0) ↔
      ChargesYield self p (.call ctx op) := by
  cases op <;> simp [Op.isHarvest, ChargesYield]

instance {p : Sys World × Tally} : DecidablePred (ChargesYield self p)
  | .world _ => isTrue trivial
  | .call _ op =>
    have : Decidable (p.1.feeDue self = 0) := Int.instDecidableEq _ _
    decidable_of_iff (op.isHarvest = true → p.2.moved ≤ 0 ∨ p.1.feeDue self = 0) chargesYield_call

/-- Fees so far, and the fees on what is still unharvested, are within the rate of the yield. -/
structure Tally.Fair (adapter : Address) (p : Sys World × Tally) : Prop where
  wellFormed : WellFormed p.1.store
  credited_nonneg : 0 ≤ p.2.credited
  bound : 10000 * p.2.credited + maxPerformanceFeeBps * p.1.unharvested adapter p.2.moved ≤
    maxPerformanceFeeBps * p.2.earned

theorem fair_untouched (tokens : Ledger Address) : Tally.Fair self (untouched tokens) where
  wellFormed := deployed_wellFormed
  credited_nonneg := le_rfl
  bound := le_of_eq rfl

/-- The world adds at most the yield that the tally counts. -/
theorem unharvested_after (self : Address) (s : Sys World) (e : Outside) (moved : Int) :
    (s.after self e).unharvested self moved ≤ s.unharvested self moved + e.earned := by
  have hd : (s.after self e).store.deployedBalance = s.store.deployedBalance := rfl
  unfold Sys.unharvested
  cases e with
  | gain strategy delta =>
    obtain ⟨inc, hc, -, hl, hi, -, -⟩ := gain_effect self s strategy delta
    simp only [Outside.earned]
    omega
  | donate amount =>
    obtain ⟨hc, hl, -⟩ := donate_effect self s amount
    simp only [Outside.earned]
    omega
  | wallet holder balance =>
    obtain ⟨hc, hl, -⟩ := wallet_effect self s holder balance
    simp only [Outside.earned]
    omega

theorem fair_world (e : Outside) (h : Tally.Fair self p) :
    Tally.Fair self (tallied self p (.world e)) := by
  refine ⟨h.wellFormed, h.credited_nonneg, ?_⟩
  have hb := h.bound
  have hm := mul_le_mul_of_nonneg_left (unharvested_after self p.1 e p.2.moved)
    (show (0 : Int) ≤ maxPerformanceFeeBps by decide)
  show 10000 * p.2.credited + maxPerformanceFeeBps * (p.1.after self e).unharvested self p.2.moved ≤
    maxPerformanceFeeBps * (p.2.earned + e.earned)
  rw [mul_add] at hm ⊢
  omega

theorem fair_harvest {caller : Address} (h : Tally.Fair self p)
    (hok : exec (honest self) ctx (.harvest caller) p.1 = .ok ((), t))
    (hc : ChargesYield self p (.call ctx (.harvest caller))) :
    10000 * (p.2.credited + max (t.store.feesAccrued - p.1.store.feesAccrued) 0) +
      maxPerformanceFeeBps * t.unharvested self 0 ≤ maxPerformanceFeeBps * p.2.earned := by
  obtain ⟨delta, hh⟩ := of_void hok
  obtain ⟨hs, hw⟩ := harvest_honest hh
  obtain ⟨hl, hcl⟩ := Sys.live_congr (s := p.1) (t := t) self (by rw [hs]; rfl) (by rw [hw])
  have hf : t.store.feesAccrued = p.1.store.feesAccrued + p.1.feeDue self := by
    rw [hs]
    rfl
  have hch : t.store.deployedBalance = p.1.live self := by
    rw [hs]
    rfl
  have hn : t.unharvested self 0 = p.1.claimed - p.1.live self := by
    unfold Sys.unharvested
    omega
  have hfe := feeDue_mul_le h.wellFormed hc
  have hnn : 0 ≤ p.1.feeDue self := feeOn_nonneg _ _
  have hb := h.bound
  rw [hn, hf, add_sub_cancel_left, max_eq_left hnn]
  omega

theorem fair_step (m : Move Outside) (h : Tally.Fair self p) (hc : ChargesYield self p m) :
    Tally.Fair self (tallied self p m) := by
  cases m with
  | world e => exact fair_world e h
  | call ctx op =>
    have hwf : WellFormed (step (honest self) (outside self) p.1 (.call ctx op)).store :=
      wellFormed_step h.wellFormed _
    refine ⟨hwf, add_nonneg h.credited_nonneg (le_max_right _ _), ?_⟩
    have hb := h.bound
    rcases (exec (honest self) ctx op).after_cases p.1 with ⟨u, t, hok, ha⟩ | ⟨⟨f, hf⟩, ha⟩
    · have hs : (exec (honest self) ctx op).succeeds p.1 = true := by
        simp [Call.succeeds, hok]
      by_cases hop : op.isHarvest = true
      · cases op <;> simp only [Op.isHarvest, Bool.false_eq_true] at hop
        simpa [tallied, watch, step, Tally.note, ha, hs, Op.isHarvest] using
          fair_harvest h hok hc
      · obtain ⟨hfs, hy⟩ := (exec_effect h.wellFormed hok).unharvested
          (Bool.eq_false_iff.mpr hop) h.wellFormed p.2.moved
        simp only [tallied, watch, step, Tally.note, ha, hop, false_and, ↓reduceIte,
          Bool.false_eq_true]
        have hm := mul_le_mul_of_nonneg_left hy (show (0 : Int) ≤ maxPerformanceFeeBps by decide)
        omega
    · have hs : (exec (honest self) ctx op).succeeds p.1 = false := by
        simp [Call.succeeds, hf]
      simpa [tallied, watch, step, Tally.note, ha, hs] using hb

/-- As long as no fee falls due on principal, all fees ever credited are within the highest rate of
all yield ever earned. -/
theorem fees_within_yield {tokens : Ledger Address} {moves : List (Move Outside)}
    (h : AllSteps (tallied self) (ChargesYield self) (untouched tokens) moves) :
    AllStates (tallied self)
      (fun p => 10000 * p.2.credited ≤ maxPerformanceFeeBps * p.2.earned ∧
        (p.2.earned = 0 → p.2.credited = 0)) (untouched tokens) moves := by
  have hf := invariant_allStates (fun p m hp hm => fair_step m hp hm) (fair_untouched tokens) h
  refine hf.mono ?_
  intro p hp
  have hnn := mul_nonneg (show (0 : Int) ≤ maxPerformanceFeeBps by decide)
    (p.1.unharvested_nonneg self p.2.moved)
  have hb := hp.bound
  have hc := hp.credited_nonneg
  refine ⟨by omega, ?_⟩
  intro he
  rw [he, mul_zero] at hb
  omega

/-- The deposit is harvested once without a fee, and then the strategy earns 500. -/
def checkpointedRun : List (Move Outside) :=
  [.world (.wallet 3 1000), .call ⟨0, []⟩ (.initializeAdapter 1 2 9),
    .call ⟨0, [1]⟩ (.registerStrategy 1 7 "pool"), .call ⟨0, [1]⟩ (.setActiveStrategy 1 1),
    .call ⟨0, [3]⟩ (.deposit 3 1000), .call ⟨0, []⟩ (.harvest 5),
    .call ⟨0, [1]⟩ (.setPerformanceFeeBps 1 3000), .world (.gain 7 500),
    .call ⟨0, []⟩ (.harvest 5)]

theorem fees_within_yield_checkpointed :
    AllStates (tallied 0)
        (fun p => 10000 * p.2.credited ≤ maxPerformanceFeeBps * p.2.earned ∧
          (p.2.earned = 0 → p.2.credited = 0)) (untouched (fun _ => 0)) checkpointedRun ∧
      (runFrom (tallied 0) (untouched (fun _ => 0)) checkpointedRun).2 = ⟨0, 150, 500⟩ :=
  ⟨fees_within_yield (by decide), by decide⟩

/-- A deposit of a thousand, harvested before the strategy earned anything, is charged 300. -/
theorem fees_on_principal :
    let p := runFrom (tallied 0) (untouched (fun _ => 0))
      (fundedRun ++ [.call ⟨0, []⟩ (.harvest 5)])
    p.2.earned = 0 ∧ p.2.credited = 300 ∧ p.1.store.feesAccrued = 300 ∧
      p.1 = run (honest 0) (outside 0) genesis (fundedRun ++ [.call ⟨0, []⟩ (.harvest 5)]) :=
  ⟨by decide, by decide, by decide, runFrom_watch _ _ _ _⟩

end Stow.Adapter
