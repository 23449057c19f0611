import Stow.Vault.Admin

/-! Locked plans and their four ways out. -/
namespace Stow.Vault

open Stow.Lib Stow.Lib.Contract Call

variable {W : Type} (H : Host W) (ctx : Ctx)

def Store.setLocked (st : Store) (id : Nat) (plan : LockedPlan) : Store :=
  { st with locked := st.locked.set id plan }

def nextLockedId : Action W Nat :=
  nextId (·.nextLockedId) (fun st id => { st with nextLockedId := id })

def lockedCreate (owner : Address) (amount : Int) (unlockAt : Nat) : Action W Nat := do
  extendInstanceTtl
  requireAuth H ctx owner
  require (0 < amount) .invalidAmount
  require (ctx.now < unlockAt) .invalidUnlockTime
  transferIn H owner amount
  let id ← nextLockedId
  save (·.setLocked id ⟨id, owner, amount, unlockAt, ctx.now⟩)
  publish (.lockedCreated id owner amount unlockAt ctx.now)
  pure id

def lockedTopUp (owner : Address) (planId : Nat) (amount : Int) : Action W Unit := do
  extendInstanceTtl
  requireAuth H ctx owner
  require (0 < amount) .invalidAmount
  let plan ← orFail (← load (·.locked.get planId)) .notFound
  require (plan.owner = owner) .unauthorized
  transferIn H owner amount
  let newBalance ← orFail (checkedAdd plan.balance amount) .overflow
  save (·.setLocked planId { plan with balance := newBalance })
  publish (.lockedTopUp planId owner amount newBalance ctx.now)

def lockedWithdraw (owner : Address) (planId : Nat) (amount : Int) : Action W Unit := do
  extendInstanceTtl
  requireAuth H ctx owner
  require (0 < amount) .invalidAmount
  let plan ← orFail (← load (·.locked.get planId)) .notFound
  require (plan.owner = owner) .unauthorized
  require (amount ≤ plan.balance) .insufficientBalance
  require (plan.unlockAt ≤ ctx.now) .stillLocked
  transferOut H owner amount
  let newBalance ← orFail (checkedSub plan.balance amount) .overflow
  save (·.setLocked planId { plan with balance := newBalance })
  publish (.lockedWithdraw planId owner amount newBalance ctx.now)

/-- The recipient is only looked up when there is a penalty to pay. -/
def payPenalty (penalty : Int) : Action W Unit :=
  if 0 < penalty then do
    let recipient ← orFail (← load (·.penaltyTarget)) .notInitialized
    transferOut H recipient penalty
  else pure ()

def lockedEarlyWithdraw (owner : Address) (planId : Nat) (amount : Int) : Action W Unit := do
  extendInstanceTtl
  requireAuth H ctx owner
  require (0 < amount) .invalidAmount
  let plan ← orFail (← load (·.locked.get planId)) .notFound
  require (plan.owner = owner) .unauthorized
  require (amount ≤ plan.balance) .insufficientBalance
  require (ctx.now < plan.unlockAt) .operationExpired
  let windowOpens ← orFail (checkedAddU64 plan.createdAt (← load (·.minLockPeriod))) .overflow
  require (windowOpens ≤ ctx.now) .timeWindowNotOpen
  let product ← orFail
    (checkedMul amount (← load (·.earlyWithdrawPenaltyBps))) .overflow
  let penalty := product.tdiv 10000
  let net ← orFail (checkedSub amount penalty) .overflow
  payPositive H owner net
  payPenalty H penalty
  let newBalance ← orFail (checkedSub plan.balance amount) .overflow
  save (·.setLocked planId { plan with balance := newBalance })
  publish (.lockedEarlyWithdraw planId owner amount penalty newBalance ctx.now)

def lockedEmergencyWithdraw (owner : Address) (planId : Nat) : Action W Unit := do
  extendInstanceTtl
  requireAuth H ctx owner
  require ((← load (·.emergencyMode)) = true) .notPaused
  let plan ← orFail (← load (·.locked.get planId)) .notFound
  require (plan.owner = owner) .unauthorized
  require (0 < plan.balance) .insufficientBalance
  transferOut H owner plan.balance
  save (·.setLocked planId { plan with balance := 0 })
  publish (.emergencyWithdraw planId owner plan.balance ctx.now)

/-! ### What a successful call paid and wrote -/

variable {ctx} {self : Address} {s t : Sys World} {u : Unit} {owner : Address} {planId : Nat}
  {amount : Int}

theorem lockedCreate_ok {id unlockAt : Nat}
    (h : lockedCreate (exact self) ctx owner amount unlockAt s = .ok (id, t)) :
    owner ≠ self ∧ 0 < amount ∧ ctx.now < unlockAt ∧ s.store.token ≠ none ∧
      id = s.store.nextLockedId + 1 ∧ s.world.pay owner self amount = some t.world ∧
      t.log = s.log ++ [.lockedCreated id owner amount unlockAt ctx.now] ∧
      t.store = { s.store with
        nextLockedId := id
        locked := s.store.locked.set id ⟨id, owner, amount, unlockAt, ctx.now⟩ } := by
  simp only [lockedCreate, transferIn, nextLockedId, bind_nextId, entry_rules] at h
  obtain ⟨-, ⟨-, hne⟩, hp, hl, ⟨-, ht, -⟩, w, hw, -, rfl, rfl⟩ := h
  exact ⟨hne, hp, hl, ht, rfl, hw, rfl, rfl⟩

theorem lockedTopUp_ok (h : lockedTopUp (exact self) ctx owner planId amount s = .ok (u, t)) :
    owner ≠ self ∧ 0 < amount ∧ ∃ plan, s.store.locked.get planId = some plan ∧
      plan.owner = owner ∧ s.world.pay owner self amount = some t.world ∧
      t.store = s.store.setLocked planId { plan with balance := plan.balance + amount } := by
  simp only [lockedTopUp, transferIn, entry_rules] at h
  obtain ⟨-, ⟨-, hne⟩, hp, plan, hg, ho, -, w, hw, _, ⟨-, rfl⟩, rfl⟩ := h
  exact ⟨hne, hp, plan, hg, ho, hw, rfl⟩

theorem lockedWithdraw_ok
    (h : lockedWithdraw (exact self) ctx owner planId amount s = .ok (u, t)) :
    owner ∈ ctx.auths ∧ 0 < amount ∧ ∃ plan, s.store.locked.get planId = some plan ∧
      plan.owner = owner ∧ amount ≤ plan.balance ∧ plan.unlockAt ≤ ctx.now ∧
      s.world.pay self owner amount = some t.world ∧
      t.store = s.store.setLocked planId { plan with balance := plan.balance - amount } := by
  simp only [lockedWithdraw, transferOut, entry_rules] at h
  obtain ⟨-, ⟨ha, -⟩, hp, plan, hg, ho, hle, hl, -, w, hw, _, ⟨-, rfl⟩, rfl⟩ := h
  exact ⟨ha, hp, plan, hg, ho, hle, hl, hw, rfl⟩

theorem bind_payPenalty {β : Type} {penalty : Int} {g : Unit → Action World β} {b : β}
    (h : (payPenalty (exact self) penalty >>= g) s = .ok (b, t)) :
    ∃ recipient w, (0 < penalty → s.store.penaltyTarget = some recipient) ∧
      s.world.payPositive self recipient penalty = some w ∧
      g () ⟨s.store, s.log, w⟩ = .ok (b, t) := by
  obtain ⟨_, s₁, hp, h⟩ := bind_ok.mp h
  rcases ite_ok.mp hp with ⟨hps, hp⟩ | ⟨hps, hp⟩
  · simp only [transferOut, bind_rules] at hp
    obtain ⟨recipient, ht, hp⟩ := hp
    obtain ⟨-, -, -, w, hw, rfl⟩ := moveTokens_exact.mp hp
    exact ⟨recipient, w, fun _ => ht, (if_pos hps).trans hw, h⟩
  · obtain ⟨-, rfl⟩ := pure_ok.mp hp
    exact ⟨self, s.world, fun hpn => absurd hpn hps, if_neg hps, h⟩

theorem lockedEarlyWithdraw_ok
    (h : lockedEarlyWithdraw (exact self) ctx owner planId amount s = .ok (u, t)) :
    owner ∈ ctx.auths ∧ 0 < amount ∧ ∃ plan penalty recipient w,
      s.store.locked.get planId = some plan ∧ plan.owner = owner ∧ amount ≤ plan.balance ∧
      ctx.now < plan.unlockAt ∧ plan.createdAt + s.store.minLockPeriod ≤ ctx.now ∧
      penalty = bpsPart s.store.earlyWithdrawPenaltyBps amount ∧
      s.world.payPositive self owner (amount - penalty) = some w ∧
      (0 < penalty → s.store.penaltyTarget = some recipient) ∧
      w.payPositive self recipient penalty = some t.world ∧
      t.store = s.store.setLocked planId { plan with balance := plan.balance - amount } := by
  simp only [lockedEarlyWithdraw, checkedAddU64_some, checkedMul_some, entry_rules] at h
  obtain ⟨-, ⟨ha, -⟩, hp, plan, hg, ho, hle, hl, _, ⟨-, rfl⟩, hwn, _, ⟨-, rfl⟩,
    _, ⟨-, rfl⟩, h⟩ := h
  obtain ⟨w, hw, h⟩ := bind_payPositive h
  obtain ⟨recipient, w', ht, hw', h⟩ := bind_payPenalty h
  simp only [bind_rules] at h
  obtain ⟨_, ⟨-, rfl⟩, rfl⟩ := h
  exact ⟨ha, hp, plan, _, recipient, w, hg, ho, hle, hl, hwn, rfl, hw, ht, hw', rfl⟩

theorem lockedEmergencyWithdraw_ok
    (h : lockedEmergencyWithdraw (exact self) ctx owner planId s = .ok (u, t)) :
    owner ∈ ctx.auths ∧ s.store.emergencyMode = true ∧ ∃ plan,
      s.store.locked.get planId = some plan ∧ plan.owner = owner ∧ 0 < plan.balance ∧
      s.world.pay self owner plan.balance = some t.world ∧
      t.store = s.store.setLocked planId { plan with balance := 0 } := by
  simp only [lockedEmergencyWithdraw, transferOut, entry_rules] at h
  obtain ⟨-, ⟨ha, -⟩, hm, plan, hg, ho, hp, -, w, hw, rfl⟩ := h
  exact ⟨ha, hm, plan, hg, ho, hp, hw, rfl⟩

end Stow.Vault
