import Stow.Adapter.Types

/-! Setting the adapter up, and the admin's configuration of it. -/
namespace Stow.Adapter

open Stow.Lib Stow.Lib.Contract Call

variable {W : Type} (H : Host W)

def maxPerformanceFeeBps : Nat := 3000

def validateFeeBps (bps : Nat) : Action W Unit :=
  require (bps ≤ maxPerformanceFeeBps) .feeTooHigh

def requireAdmin (ctx : Ctx) (caller : Address) : Action W Unit := do
  let currentAdmin ← orFail (← load (·.admin)) .notInitialized
  requireAuth H ctx caller
  require (caller = currentAdmin) .unauthorized

def requireNotPaused : Action W Unit := do
  require ((← load (·.paused)) = false) .paused

/-- The storage the first call writes. -/
def Store.seeded (st : Store) (admin treasury token : Address) : Store :=
  { st with
    admin := some admin
    treasury := some treasury
    token := some token
    paused := false
    nextStrategyId := 0
    nextWithdrawId := 0
    totalShares := 0
    feesAccrued := 0
    reservedWithdrawAssets := 0 }

def initializeAdapter (ctx : Ctx) (admin treasury token : Address) : Action W Unit := do
  require ((← load (·.admin)) = none) .alreadyInitialized
  save (·.seeded admin treasury token)
  publish (.init admin treasury token eventSchemaVersion ctx.now)

def setAdmin (ctx : Ctx) (newAdmin : Address) : Action W Unit := do
  let currentAdmin ← orFail (← load (·.admin)) .notInitialized
  requireAuth H ctx currentAdmin
  save (fun st => { st with admin := some newAdmin })
  publish (.adminSet currentAdmin newAdmin ctx.now)

def setTreasury (ctx : Ctx) (caller newTreasury : Address) : Action W Unit := do
  requireAdmin H ctx caller
  save (fun st => { st with treasury := some newTreasury })

def setPerformanceFeeBps (ctx : Ctx) (caller : Address) (bps : Nat) : Action W Unit := do
  requireAdmin H ctx caller
  validateFeeBps bps
  save (fun st => { st with performanceFeeBps := bps })

def setHarvestInterval (ctx : Ctx) (caller : Address) (seconds : Nat) : Action W Unit := do
  requireAdmin H ctx caller
  save (fun st => { st with harvestInterval := seconds })

def setPaused (ctx : Ctx) (caller : Address) (paused : Bool) : Action W Unit := do
  requireAdmin H ctx caller
  save (fun st => { st with paused := paused })
  publish (.pausedChanged caller paused ctx.now)

/-- Not written yet in the contract: every call of it panics. -/
def setWithdrawCooldown (_ctx : Ctx) (_caller : Address) (_seconds : Nat) : Action W Unit :=
  trap

def upgrade (ctx : Ctx) (caller : Address) (newWasmHash : Nat) : Action W Unit := do
  requireAdmin H ctx caller
  perform (H.updateWasm newWasmHash) .trap
  publish (.upgraded caller newWasmHash ctx.now)

variable {H}

variable {ctx : Ctx} {s t : Sys W} {u : Unit} {caller : Address}

@[simp] theorem requireNotPaused_ok :
    (requireNotPaused : Action W Unit) s = .ok (u, t) ↔ s.store.paused = false ∧ s = t := by
  simp [requireNotPaused]

section

variable {β : Type} {g : Unit → Action W β} {s t : Sys W} {b : β}

theorem bind_requireAdmin :
    (requireAdmin H ctx caller >>= g) s = .ok (b, t) ↔
      s.store.admin = some caller ∧ (caller ∈ ctx.auths ∧ caller ≠ H.self) ∧
        g () s = .ok (b, t) := by
  simp only [requireAdmin, bind_rules, bind_requireAuth]
  constructor
  · rintro ⟨_, had, ha, rfl, h⟩
    exact ⟨had, ha, h⟩
  · rintro ⟨had, ha, h⟩
    exact ⟨caller, had, ha, rfl, h⟩

theorem bind_requireNotPaused :
    (requireNotPaused >>= g) s = .ok (b, t) ↔ s.store.paused = false ∧ g () s = .ok (b, t) := by
  simp only [requireNotPaused, bind_rules]

/-- The rules of `bind_rules`, and those for what the entry points of the adapter begin with. -/
theorem entry_rules : type_of% (And.intro @bind_rules <| And.intro @bind_requireAuth <|
    And.intro @bind_requireAdmin @bind_requireNotPaused) :=
  ⟨bind_rules, bind_requireAuth, bind_requireAdmin, bind_requireNotPaused⟩

end

theorem initializeAdapter_ok {admin treasury token : Address}
    (h : initializeAdapter ctx admin treasury token s = .ok (u, t)) :
    s.store.admin = none ∧ t.store = s.store.seeded admin treasury token ∧ t.world = s.world := by
  simp only [initializeAdapter, bind_load, bind_require, bind_save, publish_ok] at h
  obtain ⟨ha, rfl⟩ := h
  exact ⟨ha, rfl, rfl⟩

end Stow.Adapter
