import Stow.Adapter.Honest

/-! Calls made while the active strategy does not answer: which are rejected, and how the others are
priced. -/
namespace Stow.Adapter

open Stow.Lib Stow.Lib.Contract Call

variable {W E α : Type} {H : Host W}

/-- The worlds that the adapter can leave by looking at its own token balances. -/
inductive Reads (H : Host W) (w : W) : W → Prop
  | refl : Reads H w w
  | read {w₁ w₂ : W} {token : Address} {b : Int} (h : Reads H w w₁)
      (hb : H.tokenBalance token H.self w₁ = some (b, w₂)) : Reads H w w₂

theorem Reads.trans {w w₁ w₂ : W} (h : Reads H w w₁) (k : Reads H w₁ w₂) : Reads H w w₂ := by
  induction k with
  | refl => exact h
  | read _ hb ih => exact ih.read hb

/-- The active strategy does not answer balance calls, however often the adapter looks at its own
tokens first. -/
structure Down (H : Host W) (s : Sys W) (info : StrategyInfo) : Prop where
  active : s.store.activeInfo = some info
  silent : ∀ w, Reads H s.world w → H.strategyBalance info.address w = none

/-- The call returns an error and changes nothing. -/
def Rejected (x : Action W α) (s : Sys W) : Prop := (∃ e, x s = .error e) ∧ x.after s = s

theorem rejected_iff {x : Action W α} {s : Sys W} : Rejected x s ↔ ¬∃ r, x s = .ok r := by
  unfold Rejected after
  cases x s with
  | error e => simp
  | ok r => simp

/-! ### Prices with the strategy counted as empty -/

/-- The pool without the strategy: what is idle, less what is owed. -/
def Store.PoolWithout (st : Store) (idle pool : Int) : Prop :=
  FitsI128 idle ∧ FitsI128 st.liabilities ∧ FitsI128 (idle - st.liabilities) ∧
    pool = max (idle - st.liabilities) 0

/-- What an amount mints from that pool. Without shares the price is one to one. -/
def MintsWithout (H : Host W) (s : Sys W) (amount shares : Int) (t : Sys W) : Prop :=
  0 ≤ amount ∧
    ((s.store.totalShares = 0 ∧ shares = amount ∧ t = s) ∨
      (s.store.totalShares ≠ 0 ∧ ∃ idle pool, idleBalance H s = .ok (idle, t) ∧
        s.store.PoolWithout idle pool ∧ pool ≠ 0 ∧ FitsI128 shares ∧
        shares = (amount * s.store.totalShares).tdiv pool))

/-- What shares redeem from it. -/
def RedeemsWithout (H : Host W) (s : Sys W) (shares assets : Int) (t : Sys W) : Prop :=
  0 ≤ shares ∧
    ((s.store.totalShares = 0 ∧ assets = shares ∧ t = s) ∨
      (s.store.totalShares ≠ 0 ∧ ∃ idle pool, idleBalance H s = .ok (idle, t) ∧
        s.store.PoolWithout idle pool ∧ FitsI128 assets ∧
        assets = (shares * pool).tdiv s.store.totalShares))

/-- What a batch mints, item by item, with the running total of its amounts. -/
def MintsAllWithout (H : Host W) : List Int → Int → Sys W → List Int → Sys W → Prop
  | [], _, s, shares, t => shares = [] ∧ t = s
  | amount :: rest, total, s, shares, t =>
    0 < amount ∧ FitsI128 (total + amount) ∧ ∃ x xs s₁, shares = x :: xs ∧ x ≠ 0 ∧
      MintsWithout H s amount x s₁ ∧ MintsAllWithout H rest (total + amount) s₁ xs t

section

variable {s t : Sys W} {info : StrategyInfo}

section

variable (h : Down H s info)

include h

theorem Down.of_quiet (hq : Quiet s t) (hr : Reads H s.world t.world) : Down H t info :=
  ⟨hq.1 ▸ h.active, fun w hw => h.silent w (hr.trans hw)⟩

theorem Down.after_read {b : Int} (hb : idleBalance H s = .ok (b, t)) : Down H t info := by
  refine h.of_quiet (idleBalance_quiet hb) ?_
  simp only [idleBalance, bind_load] at hb
  cases ht : s.store.token with
  | none =>
    simp only [ht, pure_ok] at hb
    exact hb.2 ▸ .refl
  | some token =>
    simp only [ht, invoke_ok] at hb
    obtain ⟨w, hw, rfl⟩ := hb
    exact .read .refl hw

theorem Down.strategyBalance :
    strategyBalance H info.address s = .error (.err .strategyCallFailed) := by
  simp [Adapter.strategyBalance, invoke, lift, bind, h.silent s.world .refl]

theorem Down.activeStrategyBalance : activeStrategyBalance H s = .ok (0, s) := by
  simp [Adapter.activeStrategyBalance, load, Call.read, bind, h.active, strategyBalanceOrZero,
    Call.attempt, h.strategyBalance, pure]

/-- The pool is priced as if the strategy held nothing. -/
theorem Down.tryTotalAssets {pool : Int} :
    tryTotalAssets H s = .ok (pool, t) ↔
      ∃ idle, idleBalance H s = .ok (idle, t) ∧ s.store.PoolWithout idle pool := by
  constructor
  · intro hp
    obtain ⟨idle, s₁, hi, hp⟩ := bind_ok.mp hp
    have hst := (idleBalance_quiet hi).1
    obtain ⟨deployed, s₂, hd, hp⟩ := bind_ok.mp hp
    rw [(h.after_read hi).activeStrategyBalance] at hd
    obtain ⟨rfl, rfl⟩ := Prod.mk.inj (Except.ok.inj hd)
    simp only [hst, add_zero, bind_rules] at hp
    obtain ⟨_, ⟨hg, rfl⟩, _, ⟨hl, rfl⟩, _, ⟨hn, rfl⟩, rfl, rfl⟩ := hp
    exact ⟨idle, hi, hg, hl, hn, rfl⟩
  · rintro ⟨idle, hi, hg, hl, hn, rfl⟩
    have hst := (idleBalance_quiet hi).1
    refine bind_ok.mpr ⟨idle, t, hi, bind_ok.mpr
      ⟨0, t, (h.after_read hi).activeStrategyBalance, ?_⟩⟩
    simp only [hst, add_zero, bind_rules]
    exact ⟨idle, ⟨hg, rfl⟩, _, ⟨hl, rfl⟩, _, ⟨hn, rfl⟩, rfl, trivial⟩

theorem Down.convertToShares {amount shares : Int} :
    convertToShares H amount s = .ok (shares, t) ↔ MintsWithout H s amount shares t := by
  simp only [convertToShares_ok, h.tryTotalAssets]
  refine and_congr_right fun _ => or_congr_right (and_congr_right fun _ => ?_)
  constructor
  · rintro ⟨pool, ⟨idle, hi, hp⟩, hq⟩
    exact ⟨idle, pool, hi, hp, hq⟩
  · rintro ⟨idle, pool, hi, hp, hq⟩
    exact ⟨pool, ⟨idle, hi, hp⟩, hq⟩

theorem Down.convertToAssets {shares assets : Int} :
    convertToAssets H shares s = .ok (assets, t) ↔ RedeemsWithout H s shares assets t := by
  simp only [convertToAssets_ok, h.tryTotalAssets]
  refine and_congr_right fun _ => or_congr_right (and_congr_right fun _ => ?_)
  constructor
  · rintro ⟨pool, ⟨idle, hi, hp⟩, hq⟩
    exact ⟨idle, pool, hi, hp, hq⟩
  · rintro ⟨idle, pool, hi, hp, hq⟩
    exact ⟨pool, ⟨idle, hi, hp⟩, hq⟩

end

theorem MintsWithout.down {amount shares : Int} (hm : MintsWithout H s amount shares t)
    (h : Down H s info) : Down H t info := by
  obtain ⟨-, ⟨-, -, rfl⟩ | ⟨-, idle, pool, hi, -⟩⟩ := hm
  · exact h
  · exact h.after_read hi

/-- A cap makes the deposit read the balance by the call that can fail. -/
theorem Down.cappedBalance (h : Down H s info) {deployed : Int} :
    cappedBalance H (some info) s = .ok (deployed, t) ↔
      info.depositCap ≤ 0 ∧ 0 = deployed ∧ s = t := by
  simp only [Adapter.cappedBalance, ite_ok, h.strategyBalance, pure_ok, reduceCtorEq,
    and_false, false_or, not_lt]

theorem checkDepositCap_uncapped (hc : info.depositCap ≤ 0) {deployed amount : Int} {u : Unit} :
    checkDepositCap (some info) deployed amount s = .ok (u, t) ↔ s = t := by
  simp [checkDepositCap, not_lt.mpr hc]

theorem Down.priceBatch (h : Down H s info) {amounts shares : List Int} {total total' : Int} :
    priceBatch H amounts total s = .ok ((shares, total'), t) ↔
      MintsAllWithout H amounts total s shares t ∧ total' = total + amounts.sum := by
  induction amounts generalizing total total' s shares with
  | nil =>
    simp only [Adapter.priceBatch, pure_ok, Prod.mk.injEq, MintsAllWithout, List.sum_nil,
      add_zero]
    constructor
    · rintro ⟨⟨rfl, rfl⟩, rfl⟩
      exact ⟨⟨rfl, rfl⟩, rfl⟩
    · rintro ⟨⟨rfl, rfl⟩, rfl⟩
      exact ⟨⟨rfl, rfl⟩, rfl⟩
  | cons amount rest ih =>
    rw [priceBatch_cons_ok]
    constructor
    · rintro ⟨x, s₁, ⟨xs, _⟩, hps, hf, hne, hc, hr, hpr⟩
      obtain ⟨rfl, rfl⟩ := Prod.mk.inj hpr
      have hm := h.convertToShares.mp hc
      obtain ⟨ha, rfl⟩ := (ih (hm.down h)).mp hr
      exact ⟨⟨hps, hf, x, xs, s₁, rfl, hne, hm, ha⟩, by rw [List.sum_cons, add_assoc]⟩
    · rintro ⟨⟨hps, hf, x, xs, s₁, rfl, hne, hm, ha⟩, rfl⟩
      exact ⟨x, s₁, _, hps, hf, hne, h.convertToShares.mpr hm, (ih (hm.down h)).mpr ⟨ha, rfl⟩,
        by rw [List.sum_cons, add_assoc]⟩

end

/-! ### The calls that go through -/

/-- All that a deposit needs while the strategy is down. The strategy must have no cap. -/
structure DepositGoes (H : Host W) (ctx : Ctx) (s : Sys W) (info : StrategyInfo) (source : Address)
    (amount : Int) : Prop where
  signed : source ∈ ctx.auths ∧ source ≠ H.self
  running : s.store.paused = false
  positive : 0 < amount
  uncapped : info.depositCap ≤ 0
  paid : ∃ shares s₁ s₂ s₃, MintsWithout H s amount shares s₁ ∧ shares ≠ 0 ∧
    FitsI128 (s.store.totalShares + shares) ∧
    FitsI128 ((s.store.positionOf source ctx.now).shares + shares) ∧
    transferIn H source amount s₁ = .ok ((), s₂) ∧
    deployToStrategy H info.address amount s₂ = .ok ((), s₃)

/-- A batch is taken in item by item: the shares fit, and the depositor's tokens arrive. -/
def TakesAll (H : Host W) (ctx : Ctx) : List (Address × Int × Int) → Int → Sys W → Sys W → Prop
  | [], _, s, t => s = t
  | (source, amount, shares) :: rest, total, s, t =>
    FitsI128 (total + shares) ∧ FitsI128 ((s.store.positionOf source ctx.now).shares + shares) ∧
      ∃ s₁, transferIn H source amount s = .ok ((), s₁) ∧
        let held := (s.store.positionOf source ctx.now).shares + shares
        TakesAll H ctx rest (total + shares)
          ⟨s₁.store.setShares source ctx.now held,
            s₁.log ++ [.deposited source amount shares held ctx.now], s₁.world⟩ t

structure BatchGoes (H : Host W) (ctx : Ctx) (s : Sys W) (info : StrategyInfo)
    (sources : List Address) (amounts : List Int) : Prop where
  signed : ∀ a ∈ sources, a ∈ ctx.auths ∧ a ≠ H.self
  running : s.store.paused = false
  nonempty : sources ≠ [] ∧ amounts ≠ []
  small : sources.length ≤ maxBatchSize ∧ amounts.length ≤ maxBatchSize
  paired : sources.length = amounts.length
  uncapped : info.depositCap ≤ 0
  paid : ∃ shares s₁ s₂ s₃, MintsAllWithout H amounts 0 s shares s₁ ∧
    TakesAll H ctx (sources.zip (amounts.zip shares)) s.store.totalShares s₁ s₂ ∧
    deployToStrategy H info.address amounts.sum s₂ = .ok ((), s₃)

structure RequestGoes (H : Host W) (ctx : Ctx) (s : Sys W) (owner : Address) (shares : Int) :
    Prop where
  signed : owner ∈ ctx.auths ∧ owner ≠ H.self
  running : s.store.paused = false
  positive : 0 < shares
  clock : ctx.now + s.store.withdrawCooldown ≤ u64Max
  counter : s.store.nextWithdrawId + 1 ≤ u64Max
  held : ∃ position, s.store.positions.get owner = some position ∧ shares ≤ position.shares ∧
    FitsI128 (position.shares - shares) ∧ FitsI128 (s.store.totalShares - shares)
  paid : ∃ assets s₁, RedeemsWithout H s shares assets s₁ ∧ assets ≠ 0 ∧
    FitsI128 (s.store.reservedWithdrawAssets + assets)

structure CancelGoes (H : Host W) (ctx : Ctx) (s : Sys W) (owner : Address) (requestId : Nat) :
    Prop where
  signed : owner ∈ ctx.auths ∧ owner ≠ H.self
  paid : ∃ request shares s₁, s.store.withdrawRequests.get requestId = some request ∧
    request.owner = owner ∧ request.pending = true ∧ MintsWithout H s request.assets shares s₁ ∧
    shares ≠ 0 ∧ FitsI128 ((s.store.positionOf owner ctx.now).shares + shares) ∧
    FitsI128 (s.store.totalShares + shares) ∧
    FitsI128 (s.store.reservedWithdrawAssets - request.assets)

section

variable {ctx : Ctx} {s : Sys W} {info : StrategyInfo}

theorem Down.deposit_goes (h : Down H s info) {source : Address} {amount : Int} :
    (∃ r, deposit H ctx source amount s = .ok r) ↔ DepositGoes H ctx s info source amount := by
  simp only [Prod.exists, deposit_ok, h.active]
  constructor
  · rintro ⟨shares, t, hs, hr, hps, hne, ht, hp, s₁, _, s₂, s₃, deployed, hc, hcp, -, hin, hf, -⟩
    have hm := h.convertToShares.mp hc
    obtain ⟨hu, -, rfl⟩ := (hm.down h).cappedBalance.mp hcp
    exact ⟨hs, hr, hps, hu, shares, s₁, s₂, s₃, hm, hne, ht, hp, hin,
      hf⟩
  · rintro ⟨hs, hr, hps, hu, shares, s₁, s₂, s₃, hm, hne, ht, hp, hin,
      hf⟩
    exact ⟨shares, _, hs, hr, hps, hne, ht, hp, s₁, s₁, s₂, s₃, 0, h.convertToShares.mpr hm,
      (hm.down h).cappedBalance.mpr ⟨hu, rfl, rfl⟩, (checkDepositCap_uncapped hu).mpr rfl, hin, hf,
      rfl⟩

theorem mintBatch_iff {items : List (Address × Int × Int)} {total : Int} {t : Sys W} :
    (∃ total', mintBatch H ctx items total s = .ok (total', t)) ↔
      TakesAll H ctx items total s t := by
  induction items generalizing total s with
  | nil => simp [mintBatch, TakesAll]
  | cons item rest ih =>
    obtain ⟨source, amount, shares⟩ := item
    simp only [mintBatch, TakesAll, ← ih, bind_rules]
    constructor
    · rintro ⟨total', _, ⟨ht, rfl⟩, _, ⟨hh, rfl⟩, hm⟩
      obtain ⟨_, s₁, hin, hm⟩ := bind_ok.mp hm
      exact ⟨ht, hh, s₁, hin, total', hm⟩
    · rintro ⟨ht, hh, s₁, hin, total', hm⟩
      exact ⟨total', _, ⟨ht, rfl⟩, _, ⟨hh, rfl⟩, bind_ok.mpr ⟨(), s₁, hin, hm⟩⟩

theorem Down.batchDeposit_goes (h : Down H s info) {sources : List Address} {amounts : List Int} :
    (∃ r, batchDeposit H ctx sources amounts s = .ok r) ↔
      BatchGoes H ctx s info sources amounts := by
  simp only [Prod.exists, batchDeposit_ok, h.active]
  constructor
  · rintro ⟨shares, t, hr, hn, hs, hp, hsg, _, s₁, s₂, s₃, deployed, total, newTotal,
      hc, hpr, -, hm, hf, -⟩
    obtain ⟨hu, -, rfl⟩ := h.cappedBalance.mp hc
    obtain ⟨ha, rfl⟩ := h.priceBatch.mp hpr
    rw [zero_add] at hf
    exact ⟨hsg, hr, hn, hs, hp, hu, shares, s₁, s₂, s₃, ha,
      mintBatch_iff.mp ⟨newTotal, hm⟩, hf⟩
  · rintro ⟨hsg, hr, hn, hs, hp, hu, shares, s₁, s₂, s₃, ha,
      ht, hf⟩
    obtain ⟨newTotal, hm⟩ := mintBatch_iff.mpr ht
    exact ⟨shares, _, hr, hn, hs, hp, hsg, s, s₁, s₂, s₃, 0, amounts.sum, newTotal,
      h.cappedBalance.mpr ⟨hu, rfl, rfl⟩, h.priceBatch.mpr ⟨ha, (zero_add _).symm⟩,
      (checkDepositCap_uncapped hu).mpr rfl, hm, hf, rfl⟩

theorem Down.requestWithdraw_goes (h : Down H s info) {owner : Address} {shares : Int} :
    (∃ r, requestWithdraw H ctx owner shares s = .ok r) ↔ RequestGoes H ctx s owner shares := by
  constructor
  · rintro ⟨⟨id, t⟩, hd⟩
    obtain ⟨hs, hrn, hps, hc, hcn, -, position, assets, s₁, hp, hle, hh,
      ht, hcv, hne, hr, -⟩ := requestWithdraw_ok.mp hd
    exact ⟨hs, hrn, hps, hc, hcn, ⟨position, hp, hle, hh, ht⟩,
      assets, s₁, h.convertToAssets.mp hcv, hne, hr⟩
  · rintro ⟨hs, hrn, hps, hc, hcn, ⟨position, hp, hle, hh, ht⟩,
      assets, s₁, hm, hne, hr⟩
    exact ⟨_, requestWithdraw_ok.mpr ⟨hs, hrn, hps, hc, hcn, rfl, position, assets,
      s₁, hp, hle, hh, ht, h.convertToAssets.mpr hm, hne, hr, rfl⟩⟩

theorem Down.cancelWithdraw_goes (h : Down H s info) {owner : Address} {requestId : Nat} :
    (∃ r, cancelWithdraw H ctx owner requestId s = .ok r) ↔
      CancelGoes H ctx s owner requestId := by
  constructor
  · rintro ⟨⟨u, t⟩, hd⟩
    obtain ⟨hs, request, shares, s₁, hg, ho, hp, hc, hne, hps, ht,
      hr, -⟩ := cancelWithdraw_ok.mp hd
    exact ⟨hs, request, shares, s₁, hg, ho, hp, h.convertToShares.mp hc, hne,
      hps, ht, hr⟩
  · rintro ⟨hs, request, shares, s₁, hg, ho, hp, hm, hne, hps, ht,
      hr⟩
    exact ⟨((), _), cancelWithdraw_ok.mpr ⟨hs, request, shares, s₁, hg, ho, hp,
      h.convertToShares.mpr hm, hne, hps, ht, hr, rfl⟩⟩

end

/-- While the strategy answers, the pool is priced from its report. -/
theorem tryTotalAssets_answered {s s₁ t : Sys W} {info : StrategyInfo} {idle r pool : Int} {w : W}
    (ha : s.store.activeInfo = some info) (hi : idleBalance H s = .ok (idle, s₁))
    (hr : H.strategyBalance info.address s₁.world = some (r, w))
    (hp : tryTotalAssets H s = .ok (pool, t)) :
    pool = max (idle + max r 0 - s.store.liabilities) 0 := by
  have hst := (idleBalance_quiet hi).1
  obtain ⟨idle', s₁', hi', hp⟩ := bind_ok.mp hp
  rw [hi] at hi'
  obtain ⟨rfl, rfl⟩ := Prod.mk.inj (Except.ok.inj hi')
  have hb : activeStrategyBalance H s₁ = .ok (max r 0, ⟨s₁.store, s₁.log, w⟩) := by
    have hrp : strategyBalance H info.address s₁ = .ok (max r 0, ⟨s₁.store, s₁.log, w⟩) :=
      strategyBalance_ok.mpr ⟨r, w, hr, rfl, rfl⟩
    simp [activeStrategyBalance, load, Call.read, bind, hst, ha, strategyBalanceOrZero,
      Call.attempt, hrp, pure]
  obtain ⟨deployed, s₂, hd, hp⟩ := Call.bind_ok.mp hp
  rw [hb] at hd
  obtain ⟨rfl, rfl⟩ := Prod.mk.inj (Except.ok.inj hd)
  simp only [hst, bind_rules] at hp
  obtain ⟨_, ⟨-, rfl⟩, _, ⟨-, rfl⟩, _, ⟨-, rfl⟩, rfl, -⟩ := hp
  rfl

/-- In every reachable state with an active strategy that does not answer, each of the four calls
that mint or burn shares is rejected exactly unless it passes every other check, has no cap to
check, and can be priced with the strategy counted as empty. While the strategy answers, the rate
comes from its report. -/
theorem outage_rejections {W E : Type} (H : Host W) (outside : E → W → W) (w : W)
    (moves : List (Move E)) (info : StrategyInfo) :
    let s := run H outside w moves
    s.store.activeInfo = some info →
    (Down H s info →
      (∀ ctx source amount, Rejected (deposit H ctx source amount) s ↔
        ¬DepositGoes H ctx s info source amount) ∧
      (∀ ctx sources amounts, Rejected (batchDeposit H ctx sources amounts) s ↔
        ¬BatchGoes H ctx s info sources amounts) ∧
      (∀ ctx owner shares, Rejected (requestWithdraw H ctx owner shares) s ↔
        ¬RequestGoes H ctx s owner shares) ∧
      (∀ ctx owner requestId, Rejected (cancelWithdraw H ctx owner requestId) s ↔
        ¬CancelGoes H ctx s owner requestId)) ∧
    (∀ idle s₁ r w', idleBalance H s = .ok (idle, s₁) →
      H.strategyBalance info.address s₁.world = some (r, w') →
      ∀ pool t, tryTotalAssets H s = .ok (pool, t) →
        pool = max (idle + max r 0 - s.store.liabilities) 0) := by
  intro s ha
  refine ⟨fun h => ⟨fun _ _ _ => ?_, fun _ _ _ => ?_, fun _ _ _ => ?_, fun _ _ _ => ?_⟩,
    fun _ _ _ _ hi hr _ _ hp => tryTotalAssets_answered ha hi hr hp⟩
  · rw [rejected_iff, h.deposit_goes]
  · rw [rejected_iff, h.batchDeposit_goes]
  · rw [rejected_iff, h.requestWithdraw_goes]
  · rw [rejected_iff, h.cancelWithdraw_goes]

/-- Honest but for its balance calls, which all fail. -/
def dark (self : Address) : Host World := { honest self with strategyBalance := fun _ _ => none }

/-- A thousand lie in a strategy that does not answer, and ten in the adapter. -/
def darkRun (cap : Int) : List (Move Outside) :=
  [.world (.wallet 3 1000), .world (.wallet 4 10), .call ⟨0, []⟩ (.initializeAdapter 1 2 9),
    .call ⟨0, [1]⟩ (.registerStrategy 1 7 "pool"), .call ⟨0, [1]⟩ (.setActiveStrategy 1 1),
    .call ⟨0, [3]⟩ (.deposit 3 1000), .world (.donate 10),
    .call ⟨0, [1]⟩ (.setStrategyDepositCap 1 1 cap)]

/-- With a cap the deposit is rejected. -/
theorem outage_rejections_capped :
    Rejected (deposit (dark 0) ⟨0, [4]⟩ 4 10)
      (run (dark 0) (outside 0) genesis (darkRun 5000)) := by
  have ha : (run (dark 0) (outside 0) genesis (darkRun 5000)).store.activeInfo =
      some ⟨1, 7, "pool", 5000, 0, none⟩ := by decide +kernel
  obtain ⟨hd, -⟩ := outage_rejections (dark 0) (outside 0) genesis (darkRun 5000) _ ha
  refine ((hd ⟨ha, fun _ _ => rfl⟩).1 _ _ _).mpr fun hg => ?_
  exact absurd hg.uncapped (by decide)

/-- Without a cap, ten tokens buy as many shares as the thousand in the strategy did, alone or in a
batch, and half of those shares are burned for five tokens and minted back from them. -/
theorem outage_misprices :
    let s := run (dark 0) (outside 0) genesis (darkRun 0)
    let t := (requestWithdraw (dark 0) ⟨0, [3]⟩ 3 500).after s
    s.world.claimOn 7 = 1000 ∧ s.store.totalShares = 1000 ∧
      (deposit (dark 0) ⟨0, [4]⟩ 4 10 s).toOption.map Prod.fst = some 1000 ∧
      (batchDeposit (dark 0) ⟨0, [4]⟩ [4] [10] s).toOption.map Prod.fst = some [1000] ∧
      (requestWithdraw (dark 0) ⟨0, [3]⟩ 3 500 s).toOption.map Prod.fst = some 1 ∧
      t.store.reservedWithdrawAssets = 5 ∧
      ((cancelWithdraw (dark 0) ⟨0, [3]⟩ 3 1).after t).store.totalShares = 1000 := by
  decide +kernel

end Stow.Adapter
