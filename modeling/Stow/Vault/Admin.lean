import Stow.Vault.Storage

/-! Set-up, configuration and upgrades. -/
namespace Stow.Vault

open Stow.Lib Stow.Lib.Contract Call

variable {W β : Type} (H : Host W) (ctx : Ctx)

def eventSchemaVersion : Nat := 1

/-- The storage right after `initialize`. The counter of proposals keeps its value. -/
def Store.seeded (st : Store) (admin token : Address) : Store :=
  { st with
    admin := some admin
    token := some token
    nextLockedId := 0
    nextGoalId := 0
    nextGroupId := 0
    paused := false
    emergencyMode := false
    version := 1
    insuranceFundBalance := 0 }

def initializeVault (admin token : Address) : Action W Unit := do
  require ((← load (·.admin)) = none) .alreadyInitialized
  extendInstanceTtl
  save (·.seeded admin token)
  publish (.init admin token eventSchemaVersion ctx.now)

/-- The caller signed and is the admin. -/
def requireAdmin (caller : Address) : Action W Unit := do
  let currentAdmin ← orFail (← load (·.admin)) .notInitialized
  requireAuth H ctx caller
  require (caller = currentAdmin) .unauthorized

/-- The admin signed. -/
def requireAdminAuth : Action W Address := do
  let admin ← orFail (← load (·.admin)) .notInitialized
  requireAuth H ctx admin
  pure admin

def requireNotPaused : Action W Unit := do
  require ((← load (·.paused)) = false) .paused

def requireNotEmergency : Action W Unit := do
  require ((← load (·.emergencyMode)) = false) .emergencyShutdown

/-- The checks at the head of a user's entrypoint, in a component with storage of its own. -/
def enter {X : Type} (caller : Address) : Call Error (State (Store × X) Event W) Unit := do
  zoom requireNotPaused
  zoom extendInstanceTtl
  zoom (requireAuth H ctx caller)

/-- The same for the admin, who is not held up by a pause. -/
def enterAdmin {X : Type} : Call Error (State (Store × X) Event W) Unit := do
  zoom extendInstanceTtl
  zoom (requireAdminAuth H ctx).void

def setAdmin (newAdmin : Address) : Action W Unit := do
  extendInstanceTtl
  let currentAdmin ← requireAdminAuth H ctx
  save (fun st => { st with admin := some newAdmin })
  publish (.adminSet currentAdmin newAdmin ctx.now)

def setPaused (caller : Address) (paused : Bool) : Action W Unit := do
  extendInstanceTtl
  requireAdmin H ctx caller
  save (fun st => { st with paused := paused })

def setDepositCap (cap : Int) : Action W Unit := do
  extendInstanceTtl
  let _ ← requireAdminAuth H ctx
  require (0 ≤ cap) .invalidAmount
  save (fun st => { st with depositCap := cap })

def setMinDeposit (min : Int) : Action W Unit := do
  extendInstanceTtl
  let _ ← requireAdminAuth H ctx
  require (0 ≤ min) .invalidAmount
  save (fun st => { st with minDeposit := min })

def setEarlyWithdrawPenaltyBps (bps : Nat) : Action W Unit := do
  extendInstanceTtl
  let _ ← requireAdminAuth H ctx
  require (bps ≤ 10000) .invalidParameters
  save (fun st => { st with earlyWithdrawPenaltyBps := bps })

/-- The configured recipient, or the admin. -/
def Store.penaltyTarget (st : Store) : Option Address := st.penaltyRecipient.or st.admin

def setPenaltyRecipient (recipient : Address) : Action W Unit := do
  extendInstanceTtl
  let _ ← requireAdminAuth H ctx
  save (fun st => { st with penaltyRecipient := some recipient })

def setMinLockPeriod (seconds : Nat) : Action W Unit := do
  extendInstanceTtl
  let _ ← requireAdminAuth H ctx
  save (fun st => { st with minLockPeriod := seconds })

def upgrade (caller : Address) (newWasmHash : Nat) : Action W Unit := do
  extendInstanceTtl
  requireAdmin H ctx caller
  perform (H.updateWasm newWasmHash) .trap
  publish (.upgraded caller newWasmHash ctx.now)

def setEmergencyMode (caller : Address) (active : Bool) : Action W Unit := do
  extendInstanceTtl
  requireAdmin H ctx caller
  save (fun st => { st with emergencyMode := active })
  publish (.emergencyModeSet caller active ctx.now)

def setUpgradeDelay (caller : Address) (seconds : Nat) : Action W Unit := do
  extendInstanceTtl
  requireAdmin H ctx caller
  save (fun st => { st with upgradeDelay := seconds })

def proposeUpgrade (caller : Address) (newWasmHash : Nat) : Action W Unit := do
  extendInstanceTtl
  requireAdmin H ctx caller
  require ((← load (·.pendingUpgrade)) = none) .conflictingState
  let executeAfter ← orTrap (checkedAddU64 ctx.now (← load (·.upgradeDelay)))
  save (fun st => { st with pendingUpgrade := some ⟨newWasmHash, caller, ctx.now, executeAfter⟩ })
  publish (.upgradeProposed caller newWasmHash ctx.now executeAfter)

def executeUpgrade (caller : Address) : Action W Unit := do
  extendInstanceTtl
  requireAdmin H ctx caller
  let proposal ← orFail (← load (·.pendingUpgrade)) .notFound
  require (proposal.executeAfter ≤ ctx.now) .timeWindowNotOpen
  perform (H.updateWasm proposal.newWasmHash) .trap
  let version ← orTrap (checkedAddU32 (← load (·.version)) 1)
  save (fun st => { st with version := version, pendingUpgrade := none })
  publish (.upgraded caller proposal.newWasmHash ctx.now)

def cancelUpgrade (caller : Address) : Action W Unit := do
  extendInstanceTtl
  requireAdmin H ctx caller
  require ((← load (·.pendingUpgrade)) ≠ none) .notFound
  save (fun st => { st with pendingUpgrade := none })
  publish (.upgradeCancelled caller ctx.now)

def migrate (caller : Address) : Action W Unit := do
  extendInstanceTtl
  requireAdmin H ctx caller

variable {H ctx}

section

variable {g : Unit → Action W β} {s t : Sys W} {b : β}

theorem requireAdmin_ok {caller : Address} {u : Unit} :
    requireAdmin H ctx caller s = .ok (u, t) ↔
      (s.store.admin = some caller ∧ caller ∈ ctx.auths ∧ caller ≠ H.self) ∧ s = t := by
  simp only [requireAdmin, bind_load, bind_orFail, bind_requireAuth, require_ok]
  constructor
  · rintro ⟨admin, had, ha, rfl, hs⟩
    exact ⟨⟨had, ha⟩, hs⟩
  · rintro ⟨⟨had, ha⟩, hs⟩
    exact ⟨caller, had, ha, rfl, hs⟩

theorem bind_requireAdmin {caller : Address} :
    (requireAdmin H ctx caller >>= g) s = .ok (b, t) ↔
      (s.store.admin = some caller ∧ caller ∈ ctx.auths ∧ caller ≠ H.self) ∧
        g () s = .ok (b, t) :=
  bind_guard (fun _ _ => requireAdmin_ok)

theorem bind_requireAdminAuth {f : Address → Action W β} :
    (requireAdminAuth H ctx >>= f) s = .ok (b, t) ↔
      ∃ admin, (s.store.admin = some admin ∧ admin ∈ ctx.auths ∧ admin ≠ H.self) ∧
        f admin s = .ok (b, t) := by
  rw [bind_ok]
  simp only [requireAdminAuth, bind_load, bind_orFail, bind_requireAuth, pure_ok]
  constructor
  · rintro ⟨_, _, ⟨admin, had, ha, rfl, rfl⟩, h⟩
    exact ⟨admin, ⟨had, ha⟩, h⟩
  · rintro ⟨admin, ⟨had, ha⟩, h⟩
    exact ⟨admin, s, ⟨admin, had, ha, rfl, rfl⟩, h⟩

theorem requireNotPaused_ok {u : Unit} :
    requireNotPaused s = .ok (u, t) ↔ s.store.paused = false ∧ s = t := require_ok

theorem bind_requireNotPaused :
    (requireNotPaused >>= g) s = .ok (b, t) ↔
      s.store.paused = false ∧ g () s = .ok (b, t) :=
  bind_guard (fun _ _ => requireNotPaused_ok)

theorem bind_requireNotEmergency :
    (requireNotEmergency >>= g) s = .ok (b, t) ↔
      s.store.emergencyMode = false ∧ g () s = .ok (b, t) :=
  bind_guard (fun _ _ => require_ok)

/-- The same for what the entry points of the vault begin with. -/
theorem entry_rules : type_of% (And.intro @bind_rules <| And.intro @bind_extendInstanceTtl <|
    And.intro @bind_requireAuth <| And.intro @bind_requireAdmin <|
    And.intro @bind_requireAdminAuth <| And.intro @bind_requireNotPaused <|
    And.intro @bind_requireNotEmergency @bind_moveTokens) :=
  ⟨bind_rules, bind_extendInstanceTtl, bind_requireAuth, bind_requireAdmin, bind_requireAdminAuth,
    bind_requireNotPaused, bind_requireNotEmergency, bind_moveTokens⟩

end

section

variable {X : Type} {s t : State (Store × X) Event W} {b : β}
  {g : Unit → Call Error (State (Store × X) Event W) β}

theorem bind_enter {caller : Address} :
    (enter H ctx caller >>= g) s = .ok (b, t) ↔
      (s.store.1.paused = false ∧ s.store.1.tokenTransferActive = false ∧ caller ∈ ctx.auths ∧
        caller ≠ H.self) ∧ g () s = .ok (b, t) := by
  refine bind_guard (fun u t => ?_)
  simp only [enter, bind_zoom_guard (fun _ _ => requireNotPaused_ok),
    bind_zoom_guard (fun _ _ => extendInstanceTtl_ok), zoom_ok, requireAuth, requireSigned_ok,
    and_assoc]
  constructor
  · rintro ⟨hr, hs, _, hsg, hsl, rfl, rfl⟩
    exact ⟨hr, hs, hsg, hsl, rfl⟩
  · rintro ⟨hr, hs, hsg, hsl, rfl⟩
    exact ⟨hr, hs, _, hsg, hsl, rfl, rfl⟩

theorem bind_enterAdmin :
    (enterAdmin H ctx >>= g) s = .ok (b, t) ↔
      (s.store.1.tokenTransferActive = false ∧ ∃ admin, s.store.1.admin = some admin ∧
        admin ∈ ctx.auths ∧ admin ≠ H.self) ∧ g () s = .ok (b, t) := by
  refine bind_guard (fun u t => ?_)
  simp only [enterAdmin, bind_zoom_guard (fun _ _ => extendInstanceTtl_ok), zoom_ok, void,
    bind_requireAdminAuth, pure_ok, and_assoc]
  constructor
  · rintro ⟨hs, _, ⟨admin, ha, hsg, hsl, -, rfl⟩, rfl⟩
    exact ⟨hs, ⟨admin, ha, hsg, hsl⟩, rfl⟩
  · rintro ⟨hs, ⟨admin, ha, hsg, hsl⟩, rfl⟩
    exact ⟨hs, _, ⟨admin, ha, hsg, hsl, trivial, rfl⟩, rfl⟩

end

/-- What a successful initialization checked and wrote. -/
theorem initializeVault_ok {admin token : Address} {s t : Sys W} {u : Unit}
    (h : initializeVault ctx admin token s = .ok (u, t)) :
    s.store.admin = none ∧ t.store = s.store.seeded admin token ∧ t.world = s.world := by
  simp only [initializeVault, bind_load, bind_require, bind_extendInstanceTtl, bind_save,
    publish_ok] at h
  obtain ⟨ha, -, rfl⟩ := h
  exact ⟨ha, rfl, rfl⟩

end Stow.Vault
