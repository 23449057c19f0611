import Stow.Adapter.Withdraw

/-! The strategy registry, moving funds between strategies, and the circuit breaker. -/
namespace Stow.Adapter

open Stow.Lib Stow.Lib.Contract Call

variable {W : Type} (H : Host W)

def Store.saveStrategy (st : Store) (info : StrategyInfo) : Store :=
  { st with strategies := st.strategies.set info.id info }

def getStrategy (strategyId : Nat) : Action W StrategyInfo := do
  orFail ((← load (·.strategies)).get strategyId) .strategyNotFound

def Store.listStrategies (st : Store) : List StrategyInfo :=
  (List.range' 1 st.nextStrategyId).filterMap st.strategies.get

/-- An address is taken while some live registration has it. -/
def Store.duplicate (st : Store) (address : Address) : Bool :=
  st.listStrategies.any (fun info => info.address == address && info.deregisteredAt.isNone)

def registerStrategy (ctx : Ctx) (caller address : Address) (name : String) : Action W Nat := do
  requireAdmin H ctx caller
  requireNotPaused
  require ((← load (·.duplicate address)) = false) .strategyAlreadyRegistered
  let id ← nextStrategyId
  save (·.saveStrategy ⟨id, address, name, 0, ctx.now, none⟩)
  publish (.strategyRegistered id address name ctx.now)
  pure id

def deregisterStrategy (ctx : Ctx) (caller : Address) (strategyId : Nat) : Action W Unit := do
  requireAdmin H ctx caller
  requireNotPaused
  require ((← load (·.activeStrategy)) ≠ some strategyId) .strategyActive
  let info ← getStrategy strategyId
  require (info.deregisteredAt = none) .strategyNotFound
  save (·.saveStrategy { info with deregisteredAt := some ctx.now })
  publish (.strategyDeregistered strategyId ctx.now)

def setActiveStrategy (ctx : Ctx) (caller : Address) (strategyId : Nat) : Action W Unit := do
  requireAdmin H ctx caller
  requireNotPaused
  require ((← load (·.activeStrategy)) = none) .strategyAlreadyActive
  let info ← getStrategy strategyId
  require (info.deregisteredAt = none) .strategyNotFound
  save (·.setActive (some strategyId))
  publish (.strategyChanged none (some strategyId) 0 ctx.now)

/-- Ask a strategy for all it reports: what it reported, and what arrived. -/
def withdrawDeployed (address : Address) : Action W (Int × Int) := do
  let deployed ← strategyBalance H address
  if 0 < deployed then
    let moved ← withdrawFromStrategy H address deployed
    pure (deployed, moved)
  else pure (deployed, 0)

/-- Deposit what arrived from the old strategy into the new one. -/
def redeploy (address : Address) (moved : Int) : Action W Unit :=
  if 0 < moved then deployToStrategy H address moved else pure ()

def migrateStrategy (ctx : Ctx) (caller : Address) (newStrategyId : Nat) : Action W Unit := do
  requireAdmin H ctx caller
  requireNotPaused
  let oldId ← orFail (← load (·.activeStrategy)) .strategyNotFound
  require (oldId ≠ newStrategyId) .strategyAlreadyActive
  let newInfo ← getStrategy newStrategyId
  require (newInfo.deregisteredAt = none) .strategyNotFound
  let oldInfo ← getStrategy oldId
  let r ← withdrawDeployed H oldInfo.address
  redeploy H newInfo.address r.2
  let haircut ← orFail (checkedSub r.1 r.2) .overflow
  let rebased ← orFail (checkedSub (← load (·.deployedBalance)) haircut) .overflow
  save (fun st => { st with
    activeStrategy := some newStrategyId, deployedBalance := max rebased 0 })
  publish (.strategyChanged (some oldId) (some newStrategyId) r.2 ctx.now)

def setStrategyDepositCap (ctx : Ctx) (caller : Address) (strategyId : Nat) (cap : Int) :
    Action W Unit := do
  requireAdmin H ctx caller
  requireNotPaused
  require (0 ≤ cap) .invalidAmount
  let info ← getStrategy strategyId
  save (·.saveStrategy { info with depositCap := cap })

/-- Not blocked by a pause. -/
def emergencyWithdrawAll (ctx : Ctx) (caller : Address) : Action W Int := do
  requireAdmin H ctx caller
  let strategyId ← orFail (← load (·.activeStrategy)) .strategyNotFound
  let info ← getStrategy strategyId
  let r ← withdrawDeployed H info.address
  save (·.setActive none)
  publish (.strategyChanged (some strategyId) none r.2 ctx.now)
  pure r.2

variable {H}

variable {s t : Sys W} {strategyId : Nat}

@[simp] theorem getStrategy_ok {info : StrategyInfo} :
    getStrategy strategyId s = .ok (info, t) ↔
      s.store.strategies.get strategyId = some info ∧ s = t := by
  simp only [getStrategy, bind_load, orFail_ok]

variable {address : Address}

theorem withdrawDeployed_quiet {r : Int × Int} (h : withdrawDeployed H address s = .ok (r, t)) :
    Quiet s t := by
  refine preserves_bind (strategyBalance_keeps (keeps_quiet s) _) (fun _ =>
    preserves_ite _ ?_ (preserves_pure _)) s r t (Quiet.refl s) h
  exact preserves_bind (withdrawFromStrategy_keeps (keeps_quiet s) _ _) fun _ => preserves_pure _

variable {u : Unit}

theorem redeploy_quiet {moved : Int} (h : redeploy H address moved s = .ok (u, t)) : Quiet s t := by
  simp only [redeploy, ite_ok, pure_ok] at h
  rcases h with ⟨-, h⟩ | ⟨-, -, rfl⟩
  · exact deployToStrategy_quiet h
  · exact Quiet.refl s

variable {ctx : Ctx} {caller : Address}

theorem registerStrategy_ok {name : String} {id : Nat}
    (h : registerStrategy H ctx caller address name s = .ok (id, t)) :
    s.store.admin = some caller ∧ s.store.duplicate address = false ∧
      id = s.store.nextStrategyId + 1 ∧
      t.store = { s.store with
        nextStrategyId := id
        strategies := s.store.strategies.set id ⟨id, address, name, 0, ctx.now, none⟩ } ∧
      t.world = s.world := by
  simp only [registerStrategy, nextStrategyId, checkedAddU64_some, entry_rules] at h
  obtain ⟨ha, -, -, hd, _, ⟨-, rfl⟩, rfl, rfl⟩ := h
  exact ⟨ha, hd, rfl, rfl, rfl⟩

/-- What a successful migration checked, called and wrote. -/
theorem migrateStrategy_ok {newStrategyId : Nat}
    (h : migrateStrategy H ctx caller newStrategyId s = .ok (u, t)) :
    ∃ oldId oldInfo newInfo s₁ s₂ deployed moved,
      s.store.activeStrategy = some oldId ∧ oldId ≠ newStrategyId ∧
      s.store.strategies.get oldId = some oldInfo ∧
      s.store.strategies.get newStrategyId = some newInfo ∧ newInfo.deregisteredAt = none ∧
      withdrawDeployed H oldInfo.address s = .ok ((deployed, moved), s₁) ∧
      redeploy H newInfo.address moved s₁ = .ok ((), s₂) ∧
      t.store = { s.store with
        activeStrategy := some newStrategyId
        deployedBalance := max (s.store.deployedBalance - (deployed - moved)) 0 } ∧
      t.world = s₂.world := by
  simp only [migrateStrategy, getStrategy, entry_rules] at h
  obtain ⟨-, -, -, oldId, hold, hne, newInfo, hn, hl, oldInfo, hoi, h⟩ := h
  obtain ⟨⟨deployed, moved⟩, s₁, hw, h⟩ := bind_ok.mp h
  obtain ⟨_, s₂, hre, h⟩ := bind_ok.mp h
  simp only [bind_rules] at h
  obtain ⟨_, ⟨-, rfl⟩, _, ⟨-, rfl⟩, rfl⟩ := h
  have hq := (withdrawDeployed_quiet hw).trans (redeploy_quiet hre)
  refine ⟨oldId, oldInfo, newInfo, s₁, s₂, deployed, moved, hold, hne, hoi, hn, hl, hw, hre,
    ?_, rfl⟩
  simp only [hq.1]

theorem emergencyWithdrawAll_ok {recovered : Int}
    (h : emergencyWithdrawAll H ctx caller s = .ok (recovered, t)) :
    ∃ id info s₁ deployed, s.store.activeStrategy = some id ∧
      s.store.strategies.get id = some info ∧
      withdrawDeployed H info.address s = .ok ((deployed, recovered), s₁) ∧
      t.store = s.store.setActive none ∧ t.world = s₁.world := by
  simp only [emergencyWithdrawAll, getStrategy, entry_rules] at h
  obtain ⟨-, -, id, hid, info, hi, h⟩ := h
  obtain ⟨⟨deployed, recovered'⟩, s₁, hw, h⟩ := bind_ok.mp h
  simp only [bind_rules] at h
  obtain ⟨rfl, rfl⟩ := h
  refine ⟨id, info, s₁, deployed, hid, hi, hw, ?_, rfl⟩
  simp only [(withdrawDeployed_quiet hw).1]

end Stow.Adapter
