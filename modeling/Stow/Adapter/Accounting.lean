import Stow.Adapter.Types
import Stow.Lib.Preserve

/-! Token movement, the strategy interface, and the share and asset accounting of the adapter. -/
namespace Stow.Adapter

open Stow.Lib Stow.Lib.Contract Call

variable {W : Type} (H : Host W)

/-! ### Token movement -/

def transferIn (source : Address) (amount : Int) : Action W Unit := do
  require (0 < amount) .invalidAmount
  let token ← orFail (← load (·.token)) .notInitialized
  perform (H.tokenTransfer token source H.self amount) .trap

def transferOut (target : Address) (amount : Int) : Action W Unit := do
  require (0 < amount) .invalidAmount
  let token ← orFail (← load (·.token)) .notInitialized
  perform (H.tokenTransfer token H.self target amount) .trap

def idleBalance : Action W Int := do
  match ← load (·.token) with
  | some token => invoke (H.tokenBalance token H.self) .trap
  | none => pure 0

def nextStrategyId : Action W Nat := do
  let next ← orFail (checkedAddU64 (← load (·.nextStrategyId)) 1) .overflow
  save (·.setNextStrategyId next)
  pure next

def nextWithdrawId : Action W Nat := do
  let next ← orFail (checkedAddU64 (← load (·.nextWithdrawId)) 1) .overflow
  save (·.setNextWithdrawId next)
  pure next

/-! ### The strategy interface -/

/-- The adapter's claim on a strategy. A negative report is read as `0`. -/
def strategyBalance (strategy : Address) : Action W Int := do
  let reported ← invoke (H.strategyBalance strategy) (.err .strategyCallFailed)
  pure (max reported 0)

def strategyBalanceOrZero (strategy : Address) : Action W Int := do
  pure ((← attempt (strategyBalance H strategy)).getD 0)

def deployToStrategy (strategy : Address) (amount : Int) : Action W Unit := do
  require (0 < amount) .invalidAmount
  let token ← orFail (← load (·.token)) .notInitialized
  perform (H.strategyDeposit token strategy amount) (.err .strategyCallFailed)

/-- How much arrived is measured on the adapter's own balance. -/
def withdrawFromStrategy (strategy : Address) (amount : Int) : Action W Int := do
  require (0 < amount) .invalidAmount
  let before ← idleBalance H
  perform (H.strategyWithdraw strategy amount) (.err .strategyCallFailed)
  let after ← idleBalance H
  orFail (checkedSub after before) .overflow

/-- The record of the active strategy. -/
def Store.activeInfo (st : Store) : Option StrategyInfo :=
  st.activeStrategy.bind (fun id => st.strategies.get id)

def activeStrategyBalance : Action W Int := do
  match ← load (·.activeInfo) with
  | some info => strategyBalanceOrZero H info.address
  | none => pure 0

/-! ### Shares and assets -/

/-- `a * b / denominator` rounded down, with a double-width product. -/
def mulDivFloor (a b denominator : Int) : Action W Int :=
  orFail (mulDivWide a b denominator) .overflow

def tryTotalAssets : Action W Int := do
  let idle ← idleBalance H
  let deployed ← activeStrategyBalance H
  let gross ← orFail (checkedAdd idle deployed) .overflow
  let fees ← load (·.feesAccrued)
  let reserved ← load (·.reservedWithdrawAssets)
  let liabilities ← orFail (checkedAdd fees reserved) .overflow
  let net ← orFail (checkedSub gross liabilities) .overflow
  pure (max net 0)

/-- The entrypoint aborts with the error that the fallible form returns. -/
def totalAssets : Action W Int := tryTotalAssets H

def convertToShares (assets : Int) : Action W Int := do
  require (0 ≤ assets) .invalidAmount
  let supply ← load (·.totalShares)
  if supply = 0 then pure assets
  else
    let pool ← tryTotalAssets H
    mulDivFloor assets supply pool

def convertToAssets (shares : Int) : Action W Int := do
  require (0 ≤ shares) .invalidAmount
  let supply ← load (·.totalShares)
  if supply = 0 then pure shares
  else
    let pool ← tryTotalAssets H
    mulDivFloor shares pool supply

def exchangeRate : Action W (Int × Int) := do
  let assets ← totalAssets H
  pure (assets, ← load (·.totalShares))

/-! ### What these calls leave alone -/

/-- Only the world may differ. -/
def Quiet (s t : Sys W) : Prop := t.store = s.store ∧ t.log = s.log

theorem Quiet.refl (s : Sys W) : Quiet s s := ⟨rfl, rfl⟩

variable {s t : Sys W}

theorem Quiet.trans {u : Sys W} (h : Quiet s t) (k : Quiet t u) : Quiet s u :=
  ⟨k.1.trans h.1, k.2.trans h.2⟩

theorem Quiet.eq (h : Quiet s t) : ∃ w, t = { s with world := w } :=
  ⟨t.world, by rw [← h.1, ← h.2]⟩

/-- Only the world changes before the rest of the call. -/
theorem bind_quiet {α β : Type} {x : Action W α} {f : α → Action W β} {b : β}
    (hx : ∀ {a t}, x s = .ok (a, t) → Quiet s t) :
    (x >>= f) s = .ok (b, t) ↔
      ∃ a w, x s = .ok (a, { s with world := w }) ∧ f a { s with world := w } = .ok (b, t) := by
  rw [bind_ok]
  constructor
  · rintro ⟨a, v, h, hf⟩
    obtain ⟨w, rfl⟩ := (hx h).eq
    exact ⟨a, w, h, hf⟩
  · rintro ⟨a, w, h⟩
    exact ⟨a, _, h⟩

variable {H}

variable {u : Unit} {source : Address}

theorem transferIn_ok {amount : Int} :
    transferIn H source amount s = .ok (u, t) ↔
      0 < amount ∧ ∃ token w, s.store.token = some token ∧
        H.tokenTransfer token source H.self amount s.world = some w ∧
          { s with world := w } = t := by
  simp [transferIn]

theorem transferOut_ok {target : Address} {amount : Int} :
    transferOut H target amount s = .ok (u, t) ↔
      0 < amount ∧ ∃ token w, s.store.token = some token ∧
        H.tokenTransfer token H.self target amount s.world = some w ∧
          { s with world := w } = t := by
  simp [transferOut]

variable {strategy : Address}

theorem deployToStrategy_ok {amount : Int} :
    deployToStrategy H strategy amount s = .ok (u, t) ↔
      0 < amount ∧ ∃ token w, s.store.token = some token ∧
        H.strategyDeposit token strategy amount s.world = some w ∧ { s with world := w } = t := by
  simp [deployToStrategy]

variable {b : Int}

theorem strategyBalance_ok :
    strategyBalance H strategy s = .ok (b, t) ↔
      ∃ r w, H.strategyBalance strategy s.world = some (r, w) ∧ max r 0 = b ∧
        { s with world := w } = t := by
  simp only [strategyBalance, bind_ok, invoke_ok, pure_ok]
  constructor
  · rintro ⟨r, _, ⟨w, hr, rfl⟩, hb, ht⟩
    exact ⟨r, w, hr, hb, ht⟩
  · rintro ⟨r, w, hr, hb, ht⟩
    exact ⟨r, _, ⟨w, hr, rfl⟩, hb, ht⟩

theorem transferIn_token {amount : Int} (h : transferIn H source amount s = .ok (u, t)) :
    s.store.token ≠ none := by
  obtain ⟨-, token, w, ht, -⟩ := transferIn_ok.mp h
  simp [ht]

theorem transferIn_quiet {amount : Int} (h : transferIn H source amount s = .ok (u, t)) :
    Quiet s t := by
  obtain ⟨-, token, w, -, -, rfl⟩ := transferIn_ok.mp h
  exact ⟨rfl, rfl⟩

theorem transferOut_quiet {target : Address} {amount : Int}
    (h : transferOut H target amount s = .ok (u, t)) : Quiet s t := by
  obtain ⟨-, token, w, -, -, rfl⟩ := transferOut_ok.mp h
  exact ⟨rfl, rfl⟩

theorem deployToStrategy_quiet {amount : Int}
    (h : deployToStrategy H strategy amount s = .ok (u, t)) : Quiet s t := by
  obtain ⟨-, token, w, -, -, rfl⟩ := deployToStrategy_ok.mp h
  exact ⟨rfl, rfl⟩

theorem strategyBalance_quiet (h : strategyBalance H strategy s = .ok (b, t)) :
    Quiet s t ∧ 0 ≤ b := by
  obtain ⟨r, w, -, rfl, rfl⟩ := strategyBalance_ok.mp h
  exact ⟨⟨rfl, rfl⟩, le_max_right r 0⟩

/-- What the adapter reads outside, and a withdrawal from a strategy, keep `P`. -/
structure Host.Keeps (H : Host W) (P : Sys W → Prop) : Prop where
  token : ∀ token, Preserves P (invoke (H.tokenBalance token H.self) .trap : Action W Int)
  strategy : ∀ a, Preserves P (invoke (H.strategyBalance a) (.err Error.strategyCallFailed))
  withdraw : ∀ a x, Preserves P (perform (H.strategyWithdraw a x) (.err Error.strategyCallFailed))

section

variable {P : Sys W → Prop} (hH : H.Keeps P)

include hH

theorem idleBalance_keeps : Preserves P (idleBalance H) := by
  refine preserves_bind (preserves_load _) fun o => ?_
  cases o with
  | none => exact preserves_pure 0
  | some token => exact hH.token token

theorem strategyBalance_keeps (strategy : Address) : Preserves P (strategyBalance H strategy) :=
  preserves_bind (hH.strategy strategy) fun _ => preserves_pure _

theorem tryTotalAssets_keeps : Preserves P (tryTotalAssets H) := by
  refine preserves_bind (idleBalance_keeps hH) fun _ =>
    preserves_bind (preserves_bind (preserves_load _) fun info => ?_) fun _ => ?_
  · cases info with
    | none => exact preserves_pure 0
    | some info =>
      exact preserves_bind (preserves_attempt (strategyBalance_keeps hH _))
        fun _ => preserves_pure _
  · repeat refine preserves_bind (by simp) fun _ => ?_
    exact preserves_pure _

theorem convertToShares_keeps (assets : Int) : Preserves P (convertToShares H assets) :=
  preserves_bind (preserves_require _ _) fun _ => preserves_bind (preserves_load _) fun _ =>
    preserves_ite _ (preserves_pure _) (preserves_bind (tryTotalAssets_keeps hH) fun _ =>
      preserves_orFail _ _)

theorem convertToAssets_keeps (shares : Int) : Preserves P (convertToAssets H shares) :=
  preserves_bind (preserves_require _ _) fun _ => preserves_bind (preserves_load _) fun _ =>
    preserves_ite _ (preserves_pure _) (preserves_bind (tryTotalAssets_keeps hH) fun _ =>
      preserves_orFail _ _)

theorem withdrawFromStrategy_keeps (strategy : Address) (amount : Int) :
    Preserves P (withdrawFromStrategy H strategy amount) :=
  preserves_bind (preserves_require _ _) fun _ => preserves_bind (idleBalance_keeps hH) fun _ =>
    preserves_bind (hH.withdraw strategy amount) fun _ =>
      preserves_bind (idleBalance_keeps hH) fun _ => preserves_orFail _ _

end

theorem keeps_quiet (s : Sys W) : H.Keeps (Quiet s) where
  token _ := preserves_invoke fun _ _ hs => hs
  strategy _ := preserves_invoke fun _ _ hs => hs
  withdraw _ _ := preserves_perform fun _ _ hs => hs

theorem idleBalance_quiet (h : idleBalance H s = .ok (b, t)) : Quiet s t :=
  idleBalance_keeps (keeps_quiet s) s b t (Quiet.refl s) h

theorem tryTotalAssets_nonneg {p : Int} (h : tryTotalAssets H s = .ok (p, t)) : 0 ≤ p := by
  simp only [tryTotalAssets, bind_ok, pure_ok] at h
  obtain ⟨_, _, -, _, _, -, _, _, -, _, _, -, _, _, -, _, _, -, net, _, -, rfl, -⟩ := h
  exact le_max_right net 0

variable {assets shares : Int}

/-- A priced amount: the exact ratio to the pool, rounded down, or one to one with no shares. -/
theorem convertToShares_ok :
    convertToShares H assets s = .ok (shares, t) ↔ 0 ≤ assets ∧
      ((s.store.totalShares = 0 ∧ shares = assets ∧ t = s) ∨
        (s.store.totalShares ≠ 0 ∧ ∃ pool, tryTotalAssets H s = .ok (pool, t) ∧ pool ≠ 0 ∧
          FitsI128 shares ∧ shares = (assets * s.store.totalShares).tdiv pool)) := by
  simp only [convertToShares, mulDivFloor, bind_require, bind_load, ite_ok, pure_ok,
    bind_ok (x := tryTotalAssets H), orFail_ok, mulDivWide_some]
  refine and_congr_right fun _ => or_congr (by tauto) (and_congr_right fun hs => ?_)
  constructor
  · rintro ⟨pool, _, hp, ⟨hd, hf, rfl⟩, rfl⟩
    exact ⟨pool, hp, hd, hf, rfl⟩
  · rintro ⟨pool, hp, hd, hf, rfl⟩
    exact ⟨pool, t, hp, ⟨hd, hf, rfl⟩, rfl⟩

theorem convertToAssets_ok :
    convertToAssets H shares s = .ok (assets, t) ↔ 0 ≤ shares ∧
      ((s.store.totalShares = 0 ∧ assets = shares ∧ t = s) ∨
        (s.store.totalShares ≠ 0 ∧ ∃ pool, tryTotalAssets H s = .ok (pool, t) ∧
          FitsI128 assets ∧ assets = (shares * pool).tdiv s.store.totalShares)) := by
  simp only [convertToAssets, mulDivFloor, bind_require, bind_load, ite_ok, pure_ok,
    bind_ok (x := tryTotalAssets H), orFail_ok, mulDivWide_some]
  refine and_congr_right fun _ => or_congr (by tauto) (and_congr_right fun hs => ?_)
  constructor
  · rintro ⟨pool, _, hp, ⟨-, hf, rfl⟩, rfl⟩
    exact ⟨pool, hp, hf, rfl⟩
  · rintro ⟨pool, hp, hf, rfl⟩
    exact ⟨pool, t, hp, ⟨hs, hf, rfl⟩, rfl⟩

theorem convertToShares_quiet (h : convertToShares H assets s = .ok (shares, t)) : Quiet s t :=
  convertToShares_keeps (keeps_quiet s) assets s shares t (Quiet.refl s) h

theorem convertToAssets_quiet (h : convertToAssets H shares s = .ok (assets, t)) : Quiet s t :=
  convertToAssets_keeps (keeps_quiet s) shares s assets t (Quiet.refl s) h

/-- Nothing is priced below `0` while the supply is not negative. -/
theorem convertToShares_nonneg (hs : 0 ≤ s.store.totalShares)
    (h : convertToShares H assets s = .ok (shares, t)) : 0 ≤ shares := by
  obtain ⟨ha, ⟨-, rfl, -⟩ | ⟨-, pool, hp, -, -, rfl⟩⟩ := convertToShares_ok.mp h
  · exact ha
  · exact Int.tdiv_nonneg (mul_nonneg ha hs) (tryTotalAssets_nonneg hp)

theorem convertToAssets_nonneg (hs : 0 ≤ s.store.totalShares)
    (h : convertToAssets H shares s = .ok (assets, t)) : 0 ≤ assets := by
  obtain ⟨ha, ⟨-, rfl, -⟩ | ⟨-, pool, hp, -, rfl⟩⟩ := convertToAssets_ok.mp h
  · exact ha
  · exact Int.tdiv_nonneg (mul_nonneg ha (tryTotalAssets_nonneg hp)) hs

end Stow.Adapter
