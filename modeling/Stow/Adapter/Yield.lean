import Stow.Lib.HighWater
import Stow.Adapter.FeeBase
import Stow.Adapter.Frame

/-! Harvests one after another: what is charged on a series of reports, and which way a harvest
moves the value of a share. -/
namespace Stow.Adapter

open Stow.Lib Stow.Lib.Contract

/-! ### Fees on a series of reports -/

section

variable {W E : Type} (H : Host W)

/-- The balance that the active strategy reports. -/
def reported (s : Sys W) : Int :=
  s.store.activeInfo.elim 0 (fun info =>
    (H.strategyBalance info.address s.world).elim 0 (fun r => max r.1 0))

/-- The balances that harvests saw, and the fees they credited. -/
structure HarvestBook where
  reports : List Int
  credited : Int
  deriving Repr, DecidableEq

def harvestNote (s : Sys W) (m : Move E) (b : HarvestBook) : HarvestBook :=
  match m with
  | .call ctx (.harvest caller) =>
    match harvest H ctx caller s with
    | .ok (_, t) =>
      ⟨b.reports ++ [reported H s], b.credited + (t.store.feesAccrued - s.store.feesAccrued)⟩
    | .error _ => b
  | _ => b

/-- A harvest, an event of the world, or a call that neither migrates nor changes the rate of the
fee. -/
def Move.KeepsCheckpoint : Move E → Prop
  | .world _ => True
  | .call _ op => op.isHarvest = true ∨ op.writesCheckpoint = false

instance (m : Move E) : Decidable m.KeepsCheckpoint :=
  match m with
  | .world _ => inferInstanceAs (Decidable True)
  | .call _ _ => inferInstanceAs (Decidable (_ ∨ _))

variable {H} {outside : E → W → W} {ctx : Ctx} {s t : Sys W}

theorem feeOn_eq (bps : Nat) (delta : Int) : feeOn bps delta = max delta 0 * bps / 10000 := by
  unfold feeOn
  split_ifs with h
  · rw [max_eq_left h.le, Int.tdiv_eq_ediv_of_nonneg (mul_nonneg h.le (Int.natCast_nonneg bps))]
  · rw [max_eq_right (not_lt.mp h)]
    simp

/-- A harvest charges the rise of the reported balance over the checkpoint, and the report becomes
the new checkpoint. -/
theorem harvest_reported {caller : Address} {delta : Int}
    (h : harvest H ctx caller s = .ok (delta, t)) :
    t.store.deployedBalance = reported H s ∧
      t.store.performanceFeeBps = s.store.performanceFeeBps ∧
      t.store.feesAccrued - s.store.feesAccrued =
        max (reported H s - s.store.deployedBalance) 0 * s.store.performanceFeeBps / 10000 := by
  obtain ⟨info, s₁, live, hi, hl, -, hst, -⟩ := harvest_ok h
  obtain ⟨r, w, hr, rfl, -⟩ := strategyBalance_ok.mp hl
  have hrp : reported H s = max r 0 := by simp [reported, hi, hr]
  rw [hst, hrp, ← feeOn_eq]
  exact ⟨rfl, rfl, by simp only [Store.harvested]; omega⟩

/-- The rate is the first one, the checkpoint is the last report, and the fees are those on the
rises of the reports. -/
structure HarvestBook.Accounts (first : Store) (p : Sys W × HarvestBook) : Prop where
  rate : p.1.store.performanceFeeBps = first.performanceFeeBps
  checkpoint : p.1.store.deployedBalance = p.2.reports.getLastD first.deployedBalance
  credited : p.2.credited =
    HighWater.charged first.performanceFeeBps 10000 first.deployedBalance p.2.reports

theorem checkpoint_after (H : Host W) (ctx : Ctx) (s : Sys W) {op : Op}
    (hop : op.writesCheckpoint = false) :
    ((exec H ctx op).after s).store.deployedBalance = s.store.deployedBalance ∧
      ((exec H ctx op).after s).store.performanceFeeBps = s.store.performanceFeeBps :=
  Call.after_induction (P := fun t : Sys W => t.store.deployedBalance = s.store.deployedBalance ∧
      t.store.performanceFeeBps = s.store.performanceFeeBps) ⟨rfl, rfl⟩
    (fun _ _ hok => (exec_frame hok).checkpoint hop)

theorem accounts_step {first : Store} {p : Sys W × HarvestBook} (m : Move E)
    (h : HarvestBook.Accounts first p) (hm : m.KeepsCheckpoint) :
    HarvestBook.Accounts first (watch (step H outside) (harvestNote H) p m) := by
  obtain ⟨s, b⟩ := p
  obtain ⟨hr, hc, hcr⟩ := h
  cases m with
  | world e => exact ⟨hr, hc, hcr⟩
  | call ctx op =>
    cases op with
    | harvest caller =>
      cases hh : harvest H ctx caller s with
      | error e =>
        have he : exec H ctx (.harvest caller) s = .error e := by
          simp [exec, Call.void, bind, hh]
        simp only [watch, step, harvestNote, hh, Call.after, he]
        exact ⟨hr, hc, hcr⟩
      | ok r =>
        obtain ⟨delta, t⟩ := r
        have ha := Call.after_ok (a := ()) (Call.void_ok.mpr ⟨delta, hh⟩)
        obtain ⟨hd, hb, hf⟩ := harvest_reported hh
        simp only [watch, step, harvestNote, hh, exec, ha]
        refine ⟨hb.trans hr, by simpa using hd, ?_⟩
        rw [HighWater.charged_concat, hf, hcr, hc, hr]
    | _ =>
      obtain ⟨hd, hb⟩ := checkpoint_after H ctx s (hm.resolve_left Bool.false_ne_true)
      exact ⟨hb.trans hr, hd.trans hc, hcr⟩

theorem accounts_run (s : Sys W) {moves : List (Move E)} (hmv : ∀ m ∈ moves, m.KeepsCheckpoint) :
    HarvestBook.Accounts s.store
      (runFrom (watch (step H outside) (harvestNote H)) (s, ⟨[], 0⟩) moves) :=
  invariant_run (fun _ m h hm => accounts_step m h hm) ⟨rfl, rfl, rfl⟩ (AllSteps.of_forall hmv)

end

/-- Whatever balances `b₁, …, bₙ` the strategy reports after the checkpoint `b₀`, with no migration
and at one rate: the fees credited stay within that rate of the rise of the highest balance over
`b₀` exactly when the rate on what only recovers earlier losses is lost in the rounding. -/
theorem fee_above_high_water {W E : Type} (H : Host W) (outside : E → W → W) (s : Sys W)
    (moves : List (Move E)) (hmoves : ∀ m ∈ moves, m.KeepsCheckpoint) :
    let b := (runFrom (watch (step H outside) (harvestNote H)) (s, ⟨[], 0⟩) moves).2
    let bps : Int := s.store.performanceFeeBps
    let b₀ := s.store.deployedBalance
    10000 * b.credited ≤ bps * (b.reports.foldl max b₀ - b₀) ↔
      bps * HighWater.recovered b₀ b₀ b.reports ≤ HighWater.dropped bps 10000 b₀ b.reports := by
  intro b bps b₀
  have hc : b.credited = HighWater.charged bps 10000 b₀ b.reports :=
    (accounts_run s hmoves).credited
  rw [hc]
  exact HighWater.charged_le_iff bps 10000 b₀ b.reports

/-- A deposit of a thousand is checkpointed before a fee of ten percent is set. -/
def trackedRun : List (Move Outside) :=
  [.world (.wallet 3 1000), .call ⟨0, []⟩ (.initializeAdapter 1 2 9),
    .call ⟨0, [1]⟩ (.registerStrategy 1 7 "pool"), .call ⟨0, [1]⟩ (.setActiveStrategy 1 1),
    .call ⟨0, [3]⟩ (.deposit 3 1000), .call ⟨0, []⟩ (.harvest 5),
    .call ⟨0, [1]⟩ (.setPerformanceFeeBps 1 1000)]

def tracked : Sys World := run (honest 0) (outside 0) genesis trackedRun

/-- The strategy's balance changes by each amount in turn, and is harvested every time. -/
def harvestedAfter (deltas : List Int) : List (Move Outside) :=
  deltas.flatMap (fun delta => [.world (.gain 7 delta), .call ⟨0, []⟩ (.harvest 5)])

theorem fee_above_high_water_rising :
    let b := (runFrom (watch (step (honest 0) (outside 0)) (harvestNote (honest 0)))
      (tracked, ⟨[], 0⟩) (harvestedAfter [300, 200])).2
    b = ⟨[1300, 1500], 50⟩ ∧ 10000 * b.credited ≤ 1000 * (b.reports.foldl max 1000 - 1000) :=
  ⟨by decide +kernel,
    (fee_above_high_water (honest 0) (outside 0) tracked (harvestedAfter [300, 200])
      (by decide +kernel)).mpr (by decide +kernel)⟩

/-- A loss of five hundred that is made good again is charged fifty, with nothing earned. -/
theorem fee_on_recovered_loss :
    let b := (runFrom (watch (step (honest 0) (outside 0)) (harvestNote (honest 0)))
      (tracked, ⟨[], 0⟩) (harvestedAfter [-500, 500])).2
    tracked.store.deployedBalance = 1000 ∧ tracked.store.performanceFeeBps = 1000 ∧
      b = ⟨[500, 1000], 50⟩ ∧ ¬10000 * b.credited ≤ 1000 * (b.reports.foldl max 1000 - 1000) := by
  decide +kernel

/-! ### The direction of one harvest -/

theorem feeOn_eq_zero_iff {bps : Nat} {delta : Int} :
    feeOn bps delta = 0 ↔ delta * bps < 10000 := by
  rw [feeOn_eq]
  rcases le_or_gt delta 0 with h | h
  · have hle := mul_nonpos_of_nonpos_of_nonneg h (Int.natCast_nonneg bps)
    simp only [max_eq_right h, zero_mul, Int.zero_ediv, true_iff]
    omega
  · have hnn := mul_nonneg h.le (Int.natCast_nonneg bps)
    rw [max_eq_left h.le]
    omega

section

variable {self : Address} {ctx : Ctx} {s t : Sys World}

theorem harvest_delta {caller : Address} {delta : Int}
    (h : harvest (honest self) ctx caller s = .ok (delta, t)) :
    delta = s.live self - s.store.deployedBalance := by
  obtain ⟨info, s₁, live, hi, hl, hd, -, -⟩ := harvest_ok h
  obtain ⟨hne, rfl, -⟩ := strategyBalance_honest hl
  simp [hd, Sys.live, Store.activeAddress, hi, World.liveOn, hne]

/-- With honest strategies the assets already count the strategy's balance before a harvest, so
the harvest takes its fee from them and adds nothing. They do not move the wrong way exactly when no
fee falls due or nothing is left to take it from. Shares and reservations stay as they were. -/
theorem harvest_direction {caller : Address} {delta before after : Int} {s₁ t₁ : Sys World}
    (hbefore : totalAssets (honest self) s = .ok (before, s₁))
    (h : harvest (honest self) ctx caller s = .ok (delta, t))
    (hafter : totalAssets (honest self) t = .ok (after, t₁)) :
    (t.store.totalShares = s.store.totalShares ∧ t.store.positions = s.store.positions ∧
      t.store.reservedWithdrawAssets = s.store.reservedWithdrawAssets ∧
      t.store.withdrawRequests = s.store.withdrawRequests) ∧
    ((0 ≤ delta → before ≤ after) ∧ (delta < 0 → before + delta ≤ after) ↔
      (s.live self - s.store.deployedBalance) * s.store.performanceFeeBps < 10000 ∨
        s.gross self ≤ s.store.liabilities) := by
  obtain ⟨hs, hw⟩ := harvest_honest h
  obtain ⟨rfl, -⟩ := tryTotalAssets_honest hbefore
  obtain ⟨rfl, -⟩ := tryTotalAssets_honest hafter
  refine ⟨by simp [hs, Store.harvested], ?_⟩
  rw [← feeOn_eq_zero_iff, ← harvest_delta h]
  have hnt : t.net self = s.net self - feeOn s.store.performanceFeeBps delta := by
    rw [net_of_harvested hs hw, Sys.feeDue, harvest_delta h]
  have hf := feeOn_nonneg s.store.performanceFeeBps delta
  have hl : delta < 0 → feeOn s.store.performanceFeeBps delta = 0 := by
    intro hn
    simp [feeOn, not_lt.mpr hn.le]
  have hg : s.net self = s.gross self - s.store.liabilities := rfl
  rw [Sys.pool, Sys.pool, hnt]
  omega

end

/-- A yield of five is too small for a fee, and the assets stay as they were. -/
theorem harvest_direction_small_yield :
    let s := run (honest 0) (outside 0) genesis (trackedRun ++ [.world (.gain 7 5)])
    let t := (harvest (honest 0) ⟨0, []⟩ 5).after s
    ∃ before after s₁ t₁, totalAssets (honest 0) s = .ok (before, s₁) ∧
      totalAssets (honest 0) t = .ok (after, t₁) ∧ before ≤ after := by
  intro s t
  obtain ⟨before, hb⟩ := Call.ok_of_succeeds (x := totalAssets (honest 0)) (s := s)
    (by decide +kernel)
  obtain ⟨delta, h⟩ := Call.ok_of_succeeds (x := harvest (honest 0) ⟨0, []⟩ 5) (s := s)
    (by decide +kernel)
  obtain ⟨after, ha⟩ := Call.ok_of_succeeds (x := totalAssets (honest 0)) (s := t)
    (by decide +kernel)
  have hd : 0 ≤ delta := by
    rw [harvest_delta h]
    decide +kernel
  exact ⟨before, after, _, _, hb, ha,
    ((harvest_direction hb h ha).2.mpr (.inl (by decide +kernel))).1 hd⟩

/-- A yield of a hundred is worth `1100` to the shares before its harvest and `1090` after it. -/
theorem harvest_lowers_assets :
    let s := run (honest 0) (outside 0) genesis (trackedRun ++ [.world (.gain 7 100)])
    let t := (harvest (honest 0) ⟨0, []⟩ 5).after s
    (harvest (honest 0) ⟨0, []⟩ 5 s).toOption.map Prod.fst = some 100 ∧
      (totalAssets (honest 0) s).toOption.map Prod.fst = some 1100 ∧
      (totalAssets (honest 0) t).toOption.map Prod.fst = some 1090 := by
  decide +kernel

end Stow.Adapter
