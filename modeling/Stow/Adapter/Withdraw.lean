import Stow.Adapter.Deposit

/-! The withdrawal queue: request, claim after the cooldown, or cancel. -/
namespace Stow.Adapter

open Stow.Lib Stow.Lib.Contract Call

variable {W : Type} (H : Host W)

def Store.saveRequest (st : Store) (request : WithdrawRequest) : Store :=
  { st with withdrawRequests := st.withdrawRequests.set request.id request }

def getWithdrawRequest (requestId : Nat) : Action W WithdrawRequest := do
  orFail ((← load (·.withdrawRequests)).get requestId) .notFound

def loadPendingRequest (owner : Address) (requestId : Nat) : Action W WithdrawRequest := do
  let request ← getWithdrawRequest requestId
  require (request.owner = owner) .unauthorized
  require (request.pending = true) .withdrawAlreadyResolved
  pure request

def releaseReserved (assets : Int) : Action W Unit := do
  let reserved ← orFail (checkedSub (← load (·.reservedWithdrawAssets)) assets) .overflow
  save (·.setReserved reserved)

def requestWithdraw (ctx : Ctx) (owner : Address) (shares : Int) : Action W Nat := do
  requireAuth H ctx owner
  requireNotPaused
  require (0 < shares) .invalidAmount
  let position ← orFail ((← load (·.positions)).get owner) .notFound
  require (shares ≤ position.shares) .insufficientBalance
  let assets ← convertToAssets H shares
  require (assets ≠ 0) .invalidAmount
  let claimableAt ← orFail (checkedAddU64 ctx.now (← load (·.withdrawCooldown))) .overflow
  let newPositionShares ← orFail (checkedSub position.shares shares) .overflow
  let newTotalShares ← orFail (checkedSub (← load (·.totalShares)) shares) .overflow
  let newReserved ← orFail (checkedAdd (← load (·.reservedWithdrawAssets)) assets) .overflow
  let id ← nextWithdrawId
  save (·.setShares owner ctx.now newPositionShares)
  save (·.setTotalShares newTotalShares)
  save (·.setReserved newReserved)
  save (·.saveRequest ⟨id, owner, shares, assets, claimableAt, ctx.now, none, none⟩)
  publish (.withdrawRequested id owner shares assets claimableAt ctx.now)
  pure id

/-- Pull from the active strategy what the idle balance lacks. -/
def coverShortfall (assets : Int) : Action W Unit := do
  let idle ← idleBalance H
  if idle < assets then
    let shortfall ← orFail (checkedSub assets idle) .overflow
    let info ← orFail (← load (·.activeInfo)) .insufficientBalance
    let recovered ← withdrawFromStrategy H info.address shortfall
    require (shortfall ≤ recovered) .insufficientBalance
  else pure ()

/-- The request is resolved before any external call. -/
def claimWithdraw (ctx : Ctx) (owner : Address) (requestId : Nat) : Action W Int := do
  requireAuth H ctx owner
  let request ← loadPendingRequest owner requestId
  require (request.claimableAt ≤ ctx.now) .cooldownNotElapsed
  save (·.saveRequest { request with claimedAt := some ctx.now })
  releaseReserved request.assets
  coverShortfall H request.assets
  transferOut H owner request.assets
  publish (.withdrawClaimed requestId owner request.assets ctx.now)
  pure request.assets

/-- The re-mint is priced while the request's assets are still reserved. -/
def cancelWithdraw (ctx : Ctx) (owner : Address) (requestId : Nat) : Action W Unit := do
  requireAuth H ctx owner
  let request ← loadPendingRequest owner requestId
  let shares ← convertToShares H request.assets
  require (shares ≠ 0) .invalidAmount
  let position ← load (·.positionOf owner ctx.now)
  let newPositionShares ← orFail (checkedAdd position.shares shares) .overflow
  let newTotalShares ← orFail (checkedAdd (← load (·.totalShares)) shares) .overflow
  releaseReserved request.assets
  save (·.setTotalShares newTotalShares)
  save (·.setShares owner ctx.now newPositionShares)
  save (·.saveRequest { request with cancelledAt := some ctx.now })
  publish (.withdrawCancelled requestId owner request.assets shares ctx.now)

variable {H}

variable {s t : Sys W} {requestId : Nat}

variable {assets : Int} {u : Unit}

theorem coverShortfall_keeps {P : Sys W → Prop} (hH : H.Keeps P) :
    Preserves P (coverShortfall H assets) := by
  refine preserves_bind (idleBalance_keeps hH) fun _ => preserves_ite _ ?_ (preserves_pure _)
  repeat refine preserves_bind (by simp) fun _ => ?_
  exact preserves_bind (withdrawFromStrategy_keeps hH _ _) fun _ => preserves_require _ _

theorem coverShortfall_quiet (h : coverShortfall H assets s = .ok (u, t)) : Quiet s t :=
  coverShortfall_keeps (keeps_quiet s) s u t (Quiet.refl s) h

/-- The storage once a pending request's assets are released. -/
def Store.resolve (st : Store) (assets : Int) (request : WithdrawRequest) : Store :=
  { st with
    withdrawRequests := st.withdrawRequests.set request.id request
    reservedWithdrawAssets := st.reservedWithdrawAssets - assets }

variable {ctx : Ctx}

/-- What a successful request checks and writes. -/
theorem requestWithdraw_ok {owner : Address} {shares : Int} {id : Nat} :
    requestWithdraw H ctx owner shares s = .ok (id, t) ↔
      (owner ∈ ctx.auths ∧ owner ≠ H.self) ∧ s.store.paused = false ∧ 0 < shares ∧
      ctx.now + s.store.withdrawCooldown ≤ u64Max ∧ s.store.nextWithdrawId + 1 ≤ u64Max ∧
      id = s.store.nextWithdrawId + 1 ∧ ∃ position assets s₁,
        s.store.positions.get owner = some position ∧ shares ≤ position.shares ∧
        FitsI128 (position.shares - shares) ∧ FitsI128 (s.store.totalShares - shares) ∧
        convertToAssets H shares s = .ok (assets, s₁) ∧ assets ≠ 0 ∧
        FitsI128 (s.store.reservedWithdrawAssets + assets) ∧
        t = ⟨{ s.store with
            nextWithdrawId := id
            positions := writeShares s.store.positions owner ctx.now (position.shares - shares)
            totalShares := s.store.totalShares - shares
            reservedWithdrawAssets := s.store.reservedWithdrawAssets + assets
            withdrawRequests := s.store.withdrawRequests.set id ⟨id, owner, shares, assets,
              ctx.now + s.store.withdrawCooldown, ctx.now, none, none⟩ },
          s.log ++ [.withdrawRequested id owner shares assets
            (ctx.now + s.store.withdrawCooldown) ctx.now], s₁.world⟩ := by
  simp only [requestWithdraw, nextWithdrawId, entry_rules, bind_quiet convertToAssets_quiet,
    checkedAddU64_some]
  constructor
  · rintro ⟨hsg, hr, hs, position, hg, hle, assets, w₁, hc, hne, _, ⟨hcl, rfl⟩, _, ⟨hh, rfl⟩,
      _, ⟨ht, rfl⟩, _, ⟨hf, rfl⟩, _, ⟨hcn, rfl⟩, rfl, rfl⟩
    exact ⟨hsg, hr, hs, hcl, hcn, rfl, position, assets, _, hg, hle, hh, ht, hc, hne, hf, rfl⟩
  · rintro ⟨hsg, hr, hs, hcl, hcn, rfl, position, assets, s₁, hg, hle, hh, ht, hc, hne, hf, rfl⟩
    obtain ⟨w₁, rfl⟩ := (convertToAssets_quiet hc).eq
    exact ⟨hsg, hr, hs, position, hg, hle, assets, w₁, hc, hne, _, ⟨hcl, rfl⟩, _, ⟨hh, rfl⟩,
      _, ⟨ht, rfl⟩, _, ⟨hf, rfl⟩, _, ⟨hcn, rfl⟩, rfl, rfl⟩

/-- What a successful claim checked, called and wrote. -/
theorem claimWithdraw_ok {owner : Address}
    (h : claimWithdraw H ctx owner requestId s = .ok (assets, t)) :
    owner ≠ H.self ∧ ∃ request s₁ s₂,
      s.store.withdrawRequests.get requestId = some request ∧ request.owner = owner ∧
      request.pending = true ∧ request.claimableAt ≤ ctx.now ∧ assets = request.assets ∧
      t.store = s.store.resolve request.assets { request with claimedAt := some ctx.now } ∧
      coverShortfall H request.assets ⟨t.store, s.log, s.world⟩ = .ok ((), s₁) ∧
      transferOut H owner request.assets s₁ = .ok ((), s₂) ∧ t.world = s₂.world := by
  simp only [claimWithdraw, loadPendingRequest, getWithdrawRequest, releaseReserved,
    entry_rules] at h
  obtain ⟨⟨-, hs⟩, request, hg, ho, hp, hc, _, ⟨-, rfl⟩, h⟩ := h
  obtain ⟨_, s₁, hcv, h⟩ := bind_ok.mp h
  obtain ⟨_, s₂, hot, h⟩ := bind_ok.mp h
  simp only [bind_rules] at h
  obtain ⟨rfl, rfl⟩ := h
  have hst : s₂.store = s.store.resolve request.assets { request with claimedAt := some ctx.now } :=
    ((coverShortfall_quiet hcv).trans (transferOut_quiet hot)).1
  refine ⟨hs, request, s₁, s₂, hg, ho, hp, hc, rfl, hst, ?_, hot, rfl⟩
  rw [hst]
  exact hcv

/-- What a successful cancellation checks and writes. -/
theorem cancelWithdraw_ok {owner : Address} :
    cancelWithdraw H ctx owner requestId s = .ok (u, t) ↔
      (owner ∈ ctx.auths ∧ owner ≠ H.self) ∧ ∃ request shares s₁,
        s.store.withdrawRequests.get requestId = some request ∧ request.owner = owner ∧
        request.pending = true ∧ convertToShares H request.assets s = .ok (shares, s₁) ∧
        shares ≠ 0 ∧ FitsI128 ((s.store.positionOf owner ctx.now).shares + shares) ∧
        FitsI128 (s.store.totalShares + shares) ∧
        FitsI128 (s.store.reservedWithdrawAssets - request.assets) ∧
        t = ⟨{ s.store.resolve request.assets { request with cancelledAt := some ctx.now } with
            positions := writeShares s.store.positions owner ctx.now
              ((s.store.positionOf owner ctx.now).shares + shares)
            totalShares := s.store.totalShares + shares },
          s.log ++ [.withdrawCancelled requestId owner request.assets shares ctx.now],
          s₁.world⟩ := by
  simp only [cancelWithdraw, loadPendingRequest, getWithdrawRequest, releaseReserved, entry_rules,
    bind_quiet convertToShares_quiet]
  refine and_congr_right fun _ => ?_
  constructor
  · rintro ⟨request, hg, ho, hp, shares, w₁, hc, hne, _, ⟨hps, rfl⟩, _, ⟨ht, rfl⟩, _, ⟨hr, rfl⟩,
      h⟩
    exact ⟨request, shares, _, hg, ho, hp, hc, hne, hps, ht, hr, h.symm⟩
  · rintro ⟨request, shares, s₁, hg, ho, hp, hc, hne, hps, ht, hr, rfl⟩
    obtain ⟨w₁, rfl⟩ := (convertToShares_quiet hc).eq
    exact ⟨request, hg, ho, hp, shares, w₁, hc, hne, _, ⟨hps, rfl⟩, _, ⟨ht, rfl⟩, _, ⟨hr, rfl⟩,
      rfl⟩

end Stow.Adapter
