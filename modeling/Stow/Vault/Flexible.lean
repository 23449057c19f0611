import Stow.Vault.Insurance

/-! Flexible savings, for the owner and for a delegate. -/
namespace Stow.Vault

open Stow.Lib Stow.Lib.Contract Call

variable {W : Type} (H : Host W) (ctx : Ctx)

/-- An account that was never written. -/
def FlexibleAccount.fresh (owner : Address) (now : Nat) : FlexibleAccount := ⟨owner, 0, now, now⟩

def Store.flexibleOf (st : Store) (owner : Address) (now : Nat) : FlexibleAccount :=
  (st.flexible.get owner).getD (.fresh owner now)

def Store.setFlexible (st : Store) (owner : Address) (account : FlexibleAccount) : Store :=
  { st with flexible := st.flexible.set owner account }

def deposit (source : Address) (amount : Int) : Action W Unit := do
  extendInstanceTtl
  requireNotPaused
  requireNotEmergency
  requireAuth H ctx source
  require (0 < amount) .invalidAmount
  let min ← load (·.minDeposit)
  require (¬(0 < min ∧ amount < min)) .depositBelowMinimum
  let account ← load (·.flexibleOf source ctx.now)
  let newBalance ← orFail (checkedAdd account.balance amount) .overflow
  let cap ← load (·.depositCap)
  require (¬(0 < cap ∧ cap < newBalance)) .depositCapExceeded
  transferIn H source amount
  let premium ← collectPremium amount
  let newBalance ← orFail (checkedSub newBalance premium) .overflow
  save (·.setFlexible source { account with balance := newBalance, updatedAt := ctx.now })
  publish (.deposit source amount newBalance ctx.now)

def withdraw (owner : Address) (amount : Int) : Action W Unit := do
  extendInstanceTtl
  requireAuth H ctx owner
  require (0 < amount) .invalidAmount
  let account ← orFail (← load (·.flexible.get owner)) .notFound
  require (amount ≤ account.balance) .insufficientBalance
  let newBalance ← orFail (checkedSub account.balance amount) .overflow
  transferOut H owner amount
  save (·.setFlexible owner { account with balance := newBalance, updatedAt := ctx.now })
  publish (.withdraw owner amount newBalance ctx.now)

/-! ### Delegation -/

def Store.setDelegation (st : Store) (owner delegate : Address) (delegation : Delegation) :
    Store :=
  { st with delegations := st.delegations.set (toLex (owner, delegate)) delegation }

/-- An expiry, when there is one, lies in the future. -/
def validateExpiry (expiresAt : Option Nat) : Action W Unit :=
  require (expiresAt.all (ctx.now < ·)) .invalidTimestamp

def delegateSavings (owner delegate : Address) (level : PermissionLevel)
    (expiresAt : Option Nat) : Action W Unit := do
  extendInstanceTtl
  requireNotPaused
  requireAuth H ctx owner
  require (owner ≠ delegate) .invalidAddress
  validateExpiry ctx expiresAt
  require ((← load (·.delegations.has (toLex (owner, delegate)))) = false) .conflictingState
  save (·.setDelegation owner delegate ⟨owner, delegate, level, expiresAt, ctx.now, ctx.now⟩)
  publish (.delegationGranted owner delegate level (expiresAt.getD 0) ctx.now)

def updateDelegation (owner delegate : Address) (level : PermissionLevel)
    (expiresAt : Option Nat) : Action W Unit := do
  extendInstanceTtl
  requireNotPaused
  requireAuth H ctx owner
  validateExpiry ctx expiresAt
  let delegation ← orFail (← load (·.delegations.get (toLex (owner, delegate)))) .notFound
  let updated := { delegation with level := level, expiresAt := expiresAt, updatedAt := ctx.now }
  save (·.setDelegation owner delegate updated)
  publish (.delegationUpdated owner delegate level (expiresAt.getD 0) ctx.now)

def revokeDelegation (owner delegate : Address) : Action W Unit := do
  extendInstanceTtl
  requireNotPaused
  requireAuth H ctx owner
  require ((← load (·.delegations.has (toLex (owner, delegate)))) = true) .notFound
  save (fun st => { st with delegations := st.delegations.remove (toLex (owner, delegate)) })
  publish (.delegationRevoked owner delegate ctx.now)

/-- The live delegation of the pair, at the level asked for or above. -/
def checkDelegation (owner delegate : Address) (required : PermissionLevel) :
    Action W Delegation := do
  let delegation ← orFail (← load (·.delegations.get (toLex (owner, delegate)))) .notFound
  require (delegation.expiresAt.all (ctx.now < ·)) .operationExpired
  require (required.rank ≤ delegation.level.rank) .unauthorized
  pure delegation

def delegatedDeposit (delegate owner : Address) (amount : Int) : Action W Unit := do
  extendInstanceTtl
  requireNotPaused
  requireAuth H ctx delegate
  require (0 < amount) .invalidAmount
  let _ ← checkDelegation ctx owner delegate .deposit
  let min ← load (·.minDeposit)
  require (¬(0 < min ∧ amount < min)) .depositBelowMinimum
  let account ← load (·.flexibleOf owner ctx.now)
  let newBalance ← orFail (checkedAdd account.balance amount) .overflow
  let cap ← load (·.depositCap)
  require (¬(0 < cap ∧ cap < newBalance)) .depositCapExceeded
  -- the delegate pays, and unlike the owner's deposit this one carries no premium
  transferIn H delegate amount
  save (·.setFlexible owner { account with balance := newBalance, updatedAt := ctx.now })
  publish (.deposit owner amount newBalance ctx.now)

def delegatedWithdraw (delegate owner : Address) (amount : Int) : Action W Unit := do
  extendInstanceTtl
  requireNotPaused
  requireAuth H ctx delegate
  require (0 < amount) .invalidAmount
  let _ ← checkDelegation ctx owner delegate .full
  let account ← orFail (← load (·.flexible.get owner)) .notFound
  require (amount ≤ account.balance) .insufficientBalance
  let newBalance ← orFail (checkedSub account.balance amount) .overflow
  -- the owner is paid, whoever called
  transferOut H owner amount
  save (·.setFlexible owner { account with balance := newBalance, updatedAt := ctx.now })
  publish (.withdraw owner amount newBalance ctx.now)

/-! ### What a successful call paid and wrote -/

variable {ctx} {self : Address} {s t : Sys World} {u : Unit}

theorem deposit_ok {source : Address} {amount : Int}
    (h : deposit (exact self) ctx source amount s = .ok (u, t)) :
    source ≠ self ∧ 0 < amount ∧ s.store.token ≠ none ∧ ∃ account premium,
      account = s.store.flexibleOf source ctx.now ∧
      premium = bpsPart s.store.insurancePremiumBps amount ∧
      s.world.pay source self amount = some t.world ∧
      t.log = s.log ++ [.deposit source amount (account.balance + amount - premium) ctx.now] ∧
      t.store = { s.store with
        flexible := s.store.flexible.set source
          { account with balance := account.balance + amount - premium, updatedAt := ctx.now }
        insuranceFundBalance := s.store.insuranceFundBalance + premium } := by
  simp only [deposit, transferIn, entry_rules] at h
  obtain ⟨-, -, -, ⟨-, hne⟩, hps, -, _, ⟨-, rfl⟩, -, ⟨-, ht, -⟩, w, hw, h⟩ := h
  obtain ⟨premium, s₁, hp, h⟩ := bind_ok.mp h
  obtain ⟨hpr, rfl⟩ := collectPremium_ok hps.le hp
  simp only [bind_rules] at h
  obtain ⟨_, ⟨-, rfl⟩, rfl⟩ := h
  exact ⟨hne, hps, ht, _, premium, rfl, hpr, hw, rfl, rfl⟩

theorem withdraw_ok {owner : Address} {amount : Int}
    (h : withdraw (exact self) ctx owner amount s = .ok (u, t)) :
    owner ≠ self ∧ 0 < amount ∧ ∃ account, s.store.flexible.get owner = some account ∧
      amount ≤ account.balance ∧ s.world.pay self owner amount = some t.world ∧
      t.log = s.log ++ [.withdraw owner amount (account.balance - amount) ctx.now] ∧
      t.store = s.store.setFlexible owner
        { account with balance := account.balance - amount, updatedAt := ctx.now } := by
  simp only [withdraw, transferOut, entry_rules] at h
  obtain ⟨-, ⟨-, hne⟩, hp, account, hg, hle, _, ⟨-, rfl⟩, -, w, hw, rfl⟩ := h
  exact ⟨hne, hp, account, hg, hle, hw, rfl, rfl⟩

theorem bind_checkDelegation {W β : Type} {s t : Sys W} {owner delegate : Address}
    {required : PermissionLevel} {f : Delegation → Action W β} {b : β} :
    (checkDelegation ctx owner delegate required >>= f) s = .ok (b, t) ↔
      ∃ d, (s.store.delegations.get (toLex (owner, delegate)) = some d ∧
        d.expiresAt.all (ctx.now < ·) ∧ required.rank ≤ d.level.rank) ∧ f d s = .ok (b, t) := by
  simp only [checkDelegation, and_assoc, bind_rules]

theorem delegatedDeposit_ok {delegate owner : Address} {amount : Int}
    (h : delegatedDeposit (exact self) ctx delegate owner amount s = .ok (u, t)) :
    delegate ≠ self ∧ 0 < amount ∧ ∃ account, account = s.store.flexibleOf owner ctx.now ∧
      (∃ d, s.store.delegations.get (toLex (owner, delegate)) = some d ∧
        d.expiresAt.all (ctx.now < ·) ∧ PermissionLevel.deposit.rank ≤ d.level.rank) ∧
      s.world.pay delegate self amount = some t.world ∧
      t.log = s.log ++ [.deposit owner amount (account.balance + amount) ctx.now] ∧
      t.store = s.store.setFlexible owner
        { account with balance := account.balance + amount, updatedAt := ctx.now } := by
  simp only [delegatedDeposit, transferIn, bind_checkDelegation, entry_rules] at h
  obtain ⟨-, -, ⟨-, hne⟩, hp, d, hd, -, _, ⟨-, rfl⟩, -, -, w, hw, rfl⟩ := h
  exact ⟨hne, hp, _, rfl, ⟨d, hd⟩, hw, rfl, rfl⟩

/-- The owner need not sign here, so nothing rules out that the vault pays itself. -/
theorem delegatedWithdraw_ok {delegate owner : Address} {amount : Int}
    (h : delegatedWithdraw (exact self) ctx delegate owner amount s = .ok (u, t)) :
    0 < amount ∧ ∃ d account,
      (s.store.delegations.get (toLex (owner, delegate)) = some d ∧
        d.expiresAt.all (ctx.now < ·) ∧ PermissionLevel.full.rank ≤ d.level.rank) ∧
      s.store.flexible.get owner = some account ∧
      amount ≤ account.balance ∧ s.world.pay self owner amount = some t.world ∧
      t.log = s.log ++ [.withdraw owner amount (account.balance - amount) ctx.now] ∧
      t.store = s.store.setFlexible owner
        { account with balance := account.balance - amount, updatedAt := ctx.now } := by
  simp only [delegatedWithdraw, transferOut, bind_checkDelegation, entry_rules] at h
  obtain ⟨-, -, -, hp, d, hd, account, hg, hle, _, ⟨-, rfl⟩, -, w, hw, rfl⟩ := h
  exact ⟨hp, d, account, hd, hg, hle, hw, rfl, rfl⟩

end Stow.Vault
