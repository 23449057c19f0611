import Stow.Adapter.Dilution

/-! When the adapter can pay what it owes. -/
namespace Stow.Adapter

open Stow.Lib Stow.Lib.Contract Call

variable {self : Address} {s t : Sys World} {ctx : Ctx} {op : Op}

/-- The assets cover the fees and the reservation. -/
def Sys.Covered (self : Address) (s : Sys World) : Prop := s.store.liabilities ≤ s.gross self

instance : Decidable (s.Covered self) := inferInstanceAs (Decidable (_ ≤ _))

/-- What every request in the queue keeps: its owner can sign, and the reservation fits. -/
structure QueuePayable (adapter : Address) (st : Store) : Prop where
  owner_ne : ∀ id r, st.withdrawRequests.get id = some r → r.owner ≠ adapter
  fits : FitsI128 st.reservedWithdrawAssets

theorem QueueOk.nonneg {reserved : Int} {next : Nat} {requests : SortedMap Nat WithdrawRequest}
    (h : QueueOk reserved next requests) (id : Nat) (r : WithdrawRequest)
    (hg : requests.get id = some r) : 0 ≤ r.owed := by
  unfold WithdrawRequest.owed
  split_ifs with hp
  · exact (h.pos id r hg hp).le
  · exact le_rfl

theorem QueueOk.le_reserved {reserved : Int} {next id : Nat}
    {requests : SortedMap Nat WithdrawRequest} (h : QueueOk reserved next requests)
    {r : WithdrawRequest} (hg : requests.get id = some r) (hp : r.pending = true) :
    r.assets ≤ reserved := by
  have hle := SortedMap.le_sum h.nonneg hg
  rw [← h.reserved_eq] at hle
  simpa [WithdrawRequest.owed, hp] using hle

/-! ### A claim that is covered goes through -/

/-- What the idle balance lacks is taken from the active strategy when both together suffice. -/
theorem coverShortfall_honest_ok {assets : Int} (htk : s.store.token ≠ none)
    (hp : 0 < assets) (hf : FitsI128 assets) (hcv : assets ≤ s.gross self) :
    ∃ t, coverShortfall (honest self) assets s = .ok ((), t) ∧ t.store = s.store ∧
      assets ≤ t.idle self := by
  have hid : 0 ≤ s.idle self := by
    unfold Sys.idle
    split_ifs <;> omega
  by_cases hlt : s.idle self < assets
  · have hlv : 0 < s.live self := by
      unfold Sys.gross at hcv
      omega
    obtain ⟨info, hin, hne⟩ : ∃ info, s.store.activeInfo = some info ∧ info.address ≠ self := by
      cases hi : s.store.activeInfo with
      | none => simp [Sys.live, World.liveOn, Store.activeAddress, hi] at hlv
      | some info =>
        refine ⟨info, rfl, ?_⟩
        intro ha
        simp [Sys.live, World.liveOn, Store.activeAddress, hi, ha] at hlv
    have hc : s.live self = s.world.claimOn info.address :=
      Sys.live_of_active (by simp [Store.activeAddress, hin]) hne
    have hf' : FitsI128 (assets - s.idle self) := by
      unfold FitsI128 i128Min i128Max at *
      omega
    have hle : assets - s.idle self ≤ s.world.claimOn info.address := by
      unfold Sys.gross at hcv
      omega
    have ht := (withdrawFromStrategy_iff htk).mpr ⟨by omega, hne, hle, hf', rfl, rfl⟩
    obtain ⟨-, -, hl⟩ := withdrawFromStrategy_honest htk ht
    refine ⟨_, bind_ok.mpr ⟨_, s, idleBalance_total self s, ?_⟩, hl.store_eq, ?_⟩
    · refine ite_ok.mpr (.inl ⟨hlt, ?_⟩)
      simp only [bind_rules]
      exact ⟨_, ⟨hf', rfl⟩, info, hin, bind_ok.mpr ⟨_, _, ht,
        require_ok.mpr ⟨le_rfl, rfl⟩⟩⟩
    · have hi := hl.idle_eq
      omega
  · refine ⟨s, bind_ok.mpr ⟨_, s, idleBalance_total self s, ?_⟩, rfl, by omega⟩
    exact ite_ok.mpr (.inr ⟨hlt, pure_ok.mpr ⟨rfl, rfl⟩⟩)

theorem transferOut_honest_ok (target : Address) {amount : Int} (htk : s.store.token ≠ none)
    (hp : 0 < amount) (hle : amount ≤ s.idle self) :
    ∃ t, transferOut (honest self) target amount s = .ok ((), t) := by
  cases ht : s.store.token with
  | none => exact absurd ht htk
  | some token =>
    simp only [Sys.idle, htk, ↓reduceIte] at hle
    obtain ⟨l, hl⟩ := Ledger.transfer_isSome target hp.le hle
    exact ⟨⟨s.store, s.log, ⟨l, s.world.claims⟩⟩,
      transferOut_ok.mpr ⟨hp, token, _, ht, by simp [honest, hl], rfl⟩⟩

/-- In a covered state the owner of a due request gets exactly its assets. -/
theorem claimWithdraw_covered {id : Nat} {r : WithdrawRequest} (hwf : WellFormed s.store)
    (hq : QueuePayable self s.store) (hc : s.Covered self)
    (hgt : s.store.withdrawRequests.get id = some r) (hp : r.pending = true)
    (hd : r.claimableAt ≤ ctx.now) (ha : r.owner ∈ ctx.auths) :
    ∃ t, claimWithdraw (honest self) ctx r.owner id s = .ok (r.assets, t) := by
  have hps := hwf.queue.pos id r hgt hp
  have hle := hwf.queue.le_reserved hgt hp
  have ht := (hwf.setup.of_request hgt).2
  have hft := hq.fits
  have hf := hwf.limits.fees_nonneg
  let s₀ : Sys World :=
    ⟨s.store.resolve r.assets { r with claimedAt := some ctx.now }, s.log, s.world⟩
  have hg : s₀.gross self = s.gross self := Sys.gross_congr rfl rfl rfl
  have hcv : r.assets ≤ s₀.gross self := by
    unfold Sys.Covered Store.liabilities at hc
    omega
  have hfits₀ : FitsI128 r.assets := by
    unfold FitsI128 i128Min i128Max at *
    omega
  obtain ⟨s₁, h₁, hst₁, hi⟩ := coverShortfall_honest_ok (s := s₀) ht hps hfits₀ hcv
  have htoken₁ : s₁.store.token ≠ none := hst₁ ▸ ht
  obtain ⟨s₂, h₂⟩ := transferOut_honest_ok r.owner htoken₁ hps hi
  refine ⟨⟨s₂.store, s₂.log ++ [.withdrawClaimed id r.owner r.assets ctx.now], s₂.world⟩, ?_⟩
  simp only [claimWithdraw, loadPendingRequest, getWithdrawRequest, releaseReserved, entry_rules]
  refine ⟨⟨ha, hq.owner_ne id r hgt⟩, r, hgt, rfl, hp, hd, _, ⟨?_, rfl⟩,
    bind_ok.mpr ⟨(), s₁, h₁, bind_ok.mpr ⟨(), s₂, h₂, rfl⟩⟩⟩
  show FitsI128 (s.store.reservedWithdrawAssets - r.assets)
  unfold FitsI128 i128Min i128Max at *
  omega

/-! ### What keeps the assets above the liabilities -/

theorem Sys.covered_iff : s.Covered self ↔ 0 ≤ s.net self := by
  unfold Sys.Covered Sys.net
  omega

/-- Shares redeem no more than the pool. -/
theorem Sys.Redeems.le_pool {shares assets : Int} (h : s.Redeems self shares assets)
    (hp : 0 < shares) (hle : shares ≤ s.store.totalShares) : assets ≤ s.pool self := by
  have hf := h.fair (by omega) hp.le
  have hm : shares * s.pool self ≤ s.store.totalShares * s.pool self :=
    mul_le_mul_of_nonneg_right hle s.pool_nonneg
  have ht : 0 < s.store.totalShares := by omega
  refine le_of_mul_le_mul_right ?_ ht
  rw [mul_comm (s.pool self)]
  omega

theorem SharesOk.le_total {total : Int} {positions : SortedMap Address Position} {owner : Address}
    {p : Position} (h : SharesOk total positions) (hg : positions.get owner = some p) :
    p.shares ≤ total :=
  h.total_eq ▸ SortedMap.le_sum h.nonneg hg

theorem Trade.covered (h : Trade self ctx op s t) (hwf : WellFormed s.store) (hc : s.Covered self) :
    t.Covered self := by
  rw [Sys.covered_iff] at *
  cases h with
  | mint items hit hs hg hcl =>
    have hsm : 0 ≤ (items.map (fun i => i.2.1)).sum := by
      refine List.sum_nonneg ?_
      intro a ha
      obtain ⟨i, hi, rfl⟩ := List.mem_map.mp ha
      exact (hit i hi).1.le
    simp only [Sys.net, Store.liabilities, hs, hg] at hc ⊢
    omega
  | request owner shares assets position hsl hps hsh has hr hft hs hw =>
    have hg : t.gross self = s.gross self :=
      Sys.gross_congr (by rw [hs]) (by rw [hs]; rfl) hw
    -- the shares of one position are among all shares, so the clamp hides nothing here
    have hle := hr.le_pool hsh.1 (hsh.2.trans (hwf.shares.le_total hps))
    unfold Sys.pool at hle
    rw [max_eq_left hc] at hle
    simp only [Sys.net, Store.liabilities, hs, hg] at hle ⊢
    omega
  | claim id r hgt hp hs hg hcl =>
    simp only [Sys.net, Store.liabilities, hs, hg, Store.resolve] at hc ⊢
    omega
  | cancel id r shares hgt hp hsh hm hs hw =>
    have hg : t.gross self = s.gross self :=
      Sys.gross_congr (by rw [hs]; rfl) (by rw [hs]; rfl) hw
    have has := hwf.queue.pos id r hgt hp
    simp only [Sys.net, Store.liabilities, hs, hg, Store.resolve] at hc ⊢
    omega
  | sweep treasury hf hs hg hcm =>
    simp only [Sys.net, Store.liabilities, hs, hg, Store.setFees] at hc ⊢
    split_ifs <;> omega

/-- The fee that a harvest of this state would credit. -/
def Sys.feeDue (self : Address) (s : Sys World) : Int :=
  feeOn s.store.performanceFeeBps (s.live self - s.store.deployedBalance)

/-- A harvest moves its fee from the shareholders to the treasury. -/
theorem net_of_harvested (hs : t.store = s.store.harvested ctx.now (s.live self))
    (hw : t.world = s.world) : t.net self = s.net self - s.feeDue self := by
  have hg : t.gross self = s.gross self :=
    Sys.gross_congr (by rw [hs]; rfl) (by rw [hs]; rfl) hw
  simp only [Sys.net, Store.liabilities, hs, hg, Store.harvested, Sys.feeDue]
  omega

theorem Effect.covered (h : Effect self ctx op s t) (hwf : WellFormed s.store)
    (hc : s.Covered self) (hf : ∀ caller, op = .harvest caller → s.feeDue self ≤ s.net self) :
    t.Covered self := by
  cases h with
  | trade h => exact h.covered hwf hc
  | config hb hw =>
    have hg : t.gross self = s.gross self :=
      Sys.gross_congr hb.token hb.active hw
    unfold Sys.Covered Store.liabilities at *
    rw [hg, hb.feesAccrued, hb.reserved]
    exact hc
  | seeded admin treasury token ha hs hw =>
    have hg := t.gross_nonneg self
    simpa [Sys.Covered, Store.liabilities, hs, Store.seeded] using hg
  | harvest caller hop hs hw =>
    have hle := hf caller hop
    rw [Sys.covered_iff, net_of_harvested hs hw]
    omega
  | retarget id hs hi hl hcl =>
    simp only [Sys.Covered, Store.liabilities, Sys.gross, hs, Store.setActive] at hc ⊢
    omega
  | recalled hs hi hcl =>
    have hl := t.live_nonneg self
    simp only [Sys.Covered, Store.liabilities, Sys.gross, hs, Store.setActive] at hc ⊢
    omega

theorem QueuePayable.resolve {st : Store} {assets : Int} {id : Nat} {r q : WithdrawRequest}
    (h : QueuePayable self st) (hg : st.withdrawRequests.get id = some r)
    (ho : q.owner = r.owner) (ha : 0 < assets) (hle : assets ≤ st.reservedWithdrawAssets) :
    QueuePayable self (st.resolve assets q) where
  owner_ne := by
    intro k p hp
    simp only [Store.resolve, SortedMap.get_set] at hp
    split_ifs at hp with hk
    · obtain rfl := Option.some.inj hp
      exact ho ▸ h.owner_ne id r hg
    · exact h.owner_ne k p hp
  fits := by
    have hf := h.fits
    simp only [Store.resolve, FitsI128, i128Min, i128Max] at hf ⊢
    omega

theorem Trade.queuePayable (h : Trade self ctx op s t) (hwf : WellFormed s.store)
    (hq : QueuePayable self s.store) : QueuePayable self t.store := by
  cases h with
  | mint items hi hs hg hc => exact hs ▸ ⟨hq.owner_ne, hq.fits⟩
  | request owner shares assets position hsl hps hsh ha hr hf hs hw =>
    refine hs ▸ ⟨?_, hf⟩
    intro k p hp
    simp only [SortedMap.get_set] at hp
    split_ifs at hp with hk
    · obtain rfl := Option.some.inj hp
      exact hsl
    · exact hq.owner_ne k p hp
  | claim id r hgt hpn hs hg hc =>
    rw [hs]
    exact hq.resolve hgt rfl (hwf.queue.pos id r hgt hpn)
      (hwf.queue.le_reserved hgt hpn)
  | cancel id r shares hgt hpn hsh hm hs hw =>
    have hrs := hq.resolve (q := { r with cancelledAt := some ctx.now }) hgt rfl
      (hwf.queue.pos id r hgt hpn) (hwf.queue.le_reserved hgt hpn)
    exact hs ▸ ⟨hrs.owner_ne, hrs.fits⟩
  | sweep treasury hfs hs hg hcl => exact hs ▸ ⟨hq.owner_ne, hq.fits⟩

theorem Effect.queuePayable (h : Effect self ctx op s t) (hwf : WellFormed s.store)
    (hq : QueuePayable self s.store) : QueuePayable self t.store := by
  cases h with
  | trade h => exact h.queuePayable hwf hq
  | config hb hw =>
    exact ⟨by rw [hb.withdrawRequests]; exact hq.owner_ne, by rw [hb.reserved]; exact hq.fits⟩
  | seeded admin treasury token ha hs hw =>
    exact hs ▸ ⟨hq.owner_ne, by simp [Store.seeded, FitsI128, i128Min, i128Max]⟩
  | harvest caller hop hs hw => exact hs ▸ ⟨hq.owner_ne, hq.fits⟩
  | retarget id hs hi hl hc => exact hs ▸ ⟨hq.owner_ne, hq.fits⟩
  | recalled hs hi hc => exact hs ▸ ⟨hq.owner_ne, hq.fits⟩

/-! ### Runs without a loss -/

def Move.NoLoss : Move Outside → Prop
  | .world (.gain _ delta) => 0 ≤ delta
  | _ => True

instance : DecidablePred Move.NoLoss := by
  intro m
  unfold Move.NoLoss
  split <;> infer_instance

/-- A harvest takes no more than the shareholders have left. -/
def FeeCovered (self : Address) (s : Sys World) : Move Outside → Prop
  | .call _ (.harvest _) => s.feeDue self ≤ s.net self
  | _ => True

instance : DecidablePred (FeeCovered self s) := by
  intro m
  unfold FeeCovered
  split <;> infer_instance

/-- The assets cover what is owed, `total_assets` is not clamped, and every due request is paid
in full to its owner. -/
structure Sys.Sound (adapter : Address) (s : Sys World) : Prop where
  covered : s.Covered adapter
  unclamped : ∀ p t, tryTotalAssets (honest adapter) s = .ok (p, t) → p = s.net adapter
  payable : ∀ ctx id r, s.store.withdrawRequests.get id = some r → r.pending = true →
    r.claimableAt ≤ ctx.now → r.owner ∈ ctx.auths →
    ∃ t, claimWithdraw (honest adapter) ctx r.owner id s = .ok (r.assets, t)

/-- What every step of such a run keeps. -/
structure Sys.Funded (adapter : Address) (s : Sys World) : Prop where
  wellFormed : WellFormed s.store
  queue : QueuePayable adapter s.store
  covered : s.Covered adapter

theorem Sys.Funded.sound (h : s.Funded self) : s.Sound self where
  covered := h.covered
  unclamped := by
    intro p t hp
    obtain ⟨rfl, -⟩ := tryTotalAssets_honest hp
    exact max_eq_left (Sys.covered_iff.mp h.covered)
  payable := fun _ _ _ hg hp hd ha =>
    claimWithdraw_covered h.wellFormed h.queue h.covered hg hp hd ha

theorem covered_after {e : Outside} (hl : Move.NoLoss (.world e)) (hc : s.Covered self) :
    (s.after self e).Covered self := by
  have hlb : (s.after self e).store.liabilities = s.store.liabilities := rfl
  unfold Sys.Covered Sys.gross at *
  cases e with
  | gain strategy delta =>
    obtain ⟨inc, -, hi, hlv, -, hin, -⟩ := gain_effect self s strategy delta
    have hp := hin hl
    simp only [Move.NoLoss] at hl
    omega
  | donate amount =>
    obtain ⟨-, hlv, hi⟩ := donate_effect self s amount
    have hb : s.store.token = none → s.idle self = 0 := fun ht => by simp [Sys.idle, ht]
    split_ifs at hi with ht
    · have h₀ := hb ht
      omega
    · omega
  | wallet holder balance =>
    obtain ⟨-, hlv, hi⟩ := wallet_effect self s holder balance
    omega

theorem funded_step (m : Move Outside) (h : s.Funded self)
    (hm : m.NoLoss ∧ FeeCovered self s m) :
    (step (honest self) (outside self) s m).Funded self := by
  have hwf : WellFormed (step (honest self) (outside self) s m).store :=
    wellFormed_step h.wellFormed m
  cases m with
  | world e => exact ⟨hwf, h.queue, covered_after hm.1 h.covered⟩
  | call ctx op =>
    rcases (exec (honest self) ctx op).after_cases s with ⟨u, t, hok, ha⟩ | ⟨-, ha⟩
    · rw [step, ha] at hwf ⊢
      have he := exec_effect h.wellFormed hok
      refine ⟨hwf, he.queuePayable h.wellFormed h.queue,
        he.covered h.wellFormed h.covered ?_⟩
      rintro caller rfl
      exact hm.2
    · rwa [step, ha]

theorem funded_deployed (w : World) : Sys.Funded self ⟨.deployed, [], w⟩ where
  wellFormed := deployed_wellFormed
  queue := ⟨by simp [Store.deployed], by simp [Store.deployed, FitsI128, i128Min, i128Max]⟩
  covered := Sys.gross_nonneg self _

/-- With strategies that never lose, the adapter stays sound as long as no harvest takes more than
the shareholders have left; a harvest that does breaks it. -/
theorem solvency_reachable {W₀ : World} {moves : List (Move Outside)}
    (hloss : AllSteps (step (honest self) (outside self)) (fun _ m => m.NoLoss)
      ⟨.deployed, [], W₀⟩ moves) :
    (AllSteps (step (honest self) (outside self)) (FeeCovered self) ⟨.deployed, [], W₀⟩ moves →
      AllStates (step (honest self) (outside self)) (Sys.Sound self) ⟨.deployed, [], W₀⟩ moves) ∧
    ∀ s ctx caller delta t, harvest (honest self) ctx caller s = .ok (delta, t) →
      (t.Covered self ↔ FeeCovered self s (.call ctx (.harvest caller))) := by
  refine ⟨?_, ?_⟩
  · intro hfe
    have hf := invariant_allStates (fun s m hs hm => funded_step m hs hm)
      (funded_deployed W₀) (hloss.and hfe)
    exact hf.mono (fun s hs => hs.sound)
  · intro s ctx caller delta t h
    obtain ⟨hst, hw⟩ := harvest_honest h
    rw [Sys.covered_iff, net_of_harvested hst hw, FeeCovered]
    omega

/-- One depositor with a thousand in a strategy, at the highest fee. -/
def fundedRun : List (Move Outside) :=
  [.world (.wallet 3 1000), .call ⟨0, []⟩ (.initializeAdapter 1 2 9),
    .call ⟨0, [1]⟩ (.registerStrategy 1 7 "pool"), .call ⟨0, [1]⟩ (.setActiveStrategy 1 1),
    .call ⟨0, [1]⟩ (.setPerformanceFeeBps 1 3000), .call ⟨0, [3]⟩ (.deposit 3 1000)]

/-- A harvest while most of the shares are still held. -/
theorem solvency_reachable_redeemed :
    let moves := fundedRun ++ [.call ⟨0, [3]⟩ (.requestWithdraw 3 400), .call ⟨0, []⟩ (.harvest 5)]
    AllStates (step (honest 0) (outside 0)) (Sys.Sound 0) ⟨.deployed, [], genesis⟩ moves ∧
      (run (honest 0) (outside 0) genesis moves).store.liabilities = 700 :=
  ⟨(solvency_reachable (by decide)).1 (by decide), by decide⟩

/-- All shares are redeemed, the harvest takes the deposit for yield, and after the sweep the
request cannot be paid. -/
def drainedRun : List (Move Outside) :=
  fundedRun ++ [.call ⟨0, [3]⟩ (.requestWithdraw 3 1000), .call ⟨0, []⟩ (.harvest 5),
    .call ⟨0, [1]⟩ (.emergencyWithdrawAll 1), .call ⟨0, []⟩ (.withdrawFees 5)]

theorem solvency_drained :
    AllSteps (step (honest 0) (outside 0)) (fun _ m => m.NoLoss) ⟨.deployed, [], genesis⟩
        drainedRun ∧
      let s := run (honest 0) (outside 0) genesis drainedRun
      ¬ s.Covered 0 ∧ (s.idle 0, s.live 0, s.store.liabilities) = (700, 0, 1000) ∧
        claimWithdraw (honest 0) ⟨0, [3]⟩ 3 1 s = .error (.err .insufficientBalance) :=
  ⟨by decide, by decide, by decide, rfl⟩

end Stow.Adapter
