import Stow.Lib.FixedPoint
import Stow.Vault.Rewards

/-! Interest accounts, whose interest is credited when they are touched. -/
namespace Stow.Vault

open Stow.Lib Stow.Lib.Contract Call

variable {W : Type} (H : Host W) (ctx : Ctx)

def interestBps : Nat := 10000

def maxInterestBps : Nat := 10000

/-- Fixed-point `1.0`. -/
def scale : Int := 1000000000000

def setInterestRate (caller : Address) (rateBps : Nat) : Action W Unit := do
  extendInstanceTtl
  requireNotPaused
  requireAdmin H ctx caller
  require (rateBps ≤ maxInterestBps) .invalidParameters
  save (fun st => { st with interestRateBps := rateBps })
  publish (.interestRateSet caller rateBps ctx.now)

def setInterestFrequency (caller : Address) (frequency : CompoundFrequency) : Action W Unit := do
  extendInstanceTtl
  requireNotPaused
  requireAdmin H ctx caller
  save (fun st => { st with interestFrequency := frequency })
  publish (.interestFrequencySet caller frequency ctx.now)

/-- The writer behind a queued rate: whoever calls it has checked the admin. -/
def setRateInternal (admin : Address) (rateBps : Nat) : Action W Unit := do
  require (rateBps ≤ maxInterestBps) .invalidParameters
  save (fun st => { st with interestRateBps := rateBps })
  publish (.interestRateSet admin rateBps ctx.now)

def setFrequencyInternal (admin : Address) (frequency : CompoundFrequency) : Action W Unit := do
  save (fun st => { st with interestFrequency := frequency })
  publish (.interestFrequencySet admin frequency ctx.now)

/-! ### Compounding

Every failure of the arithmetic is reported as an overflow. -/

/-- The growth factor of one period. -/
def periodFactor (rateBps periodsPerYear : Nat) : Option Int := do
  let denominator ← checkedMul interestBps periodsPerYear
  let numerator ← checkedAdd denominator rateBps
  mulDivWide scale numerator denominator

def powFactor (base : Int) (exp : Nat) : Option Int := powFloor scale base exp

def compound (principal : Int) (rateBps periodsPerYear periods : Nat) : Option Int :=
  if principal = 0 ∨ periods = 0 ∨ rateBps = 0 then some principal
  else do
    let factor ← periodFactor rateBps periodsPerYear
    let growth ← powFactor factor periods
    mulDivWide principal growth scale

/-- The whole periods since the anchor. -/
def InterestAccount.periodsAt (account : InterestAccount) (now : Nat) : Nat :=
  (now - account.lastCompoundAt) / account.frequency.periodSeconds

/-- The account with its whole periods credited, and the interest this added. -/
def settle (account : InterestAccount) (now : Nat) : Option (InterestAccount × Int) :=
  let periods := account.periodsAt now
  if periods = 0 then some (account, 0)
  else do
    let compounded ← compound account.principal account.rateBps
      account.frequency.periodsPerYear periods
    let credited ← checkedSub compounded account.principal
    let elapsed ← checkedMulU64 periods account.frequency.periodSeconds
    let advanced ← checkedAddU64 account.lastCompoundAt elapsed
    some ({ account with principal := compounded, lastCompoundAt := advanced }, credited)

/-- The interest that a claim would credit. -/
def InterestAccount.accruedAt (account : InterestAccount) (now : Nat) : Option Int :=
  let periods := account.periodsAt now
  if periods = 0 then some 0
  else do
    let compounded ← compound account.principal account.rateBps
      account.frequency.periodsPerYear periods
    checkedSub compounded account.principal

/-! ### Entrypoints -/

/-- An account that was never written starts with the current configuration. -/
def InterestAccount.fresh (st : Store) (owner : Address) (now : Nat) : InterestAccount where
  owner := owner
  principal := 0
  lastCompoundAt := now
  rateBps := st.interestRateBps
  frequency := st.interestFrequency
  createdAt := now
  updatedAt := now

def Store.interestOf (st : Store) (owner : Address) (now : Nat) : InterestAccount :=
  (st.interestAccounts.get owner).getD (.fresh st owner now)

def Store.setInterest (st : Store) (owner : Address) (account : InterestAccount) : Store :=
  { st with interestAccounts := st.interestAccounts.set owner account }

/-- The current configuration applies from here on. -/
def InterestAccount.adopt (account : InterestAccount) (st : Store) (principal : Int) (now : Nat) :
    InterestAccount :=
  { account with
    rateBps := st.interestRateBps
    frequency := st.interestFrequency
    principal := principal
    updatedAt := now }

def interestDeposit (owner : Address) (amount : Int) : Action W Unit := do
  extendInstanceTtl
  requireNotPaused
  requireAuth H ctx owner
  require (0 < amount) .invalidAmount
  let account ← load (·.interestOf owner ctx.now)
  -- settled under the account's own rate before the current one is adopted
  let (account, _) ← orFail (settle account ctx.now) .overflow
  let principal ← orFail (checkedAdd account.principal amount) .overflow
  transferIn H owner amount
  save (fun st => st.setInterest owner (account.adopt st principal ctx.now))
  noteTouch ctx owner
  publish (.interestDeposit owner amount principal ctx.now)

def interestWithdraw (owner : Address) (amount : Int) : Action W Unit := do
  extendInstanceTtl
  requireNotPaused
  requireAuth H ctx owner
  require (0 < amount) .invalidAmount
  let account ← orFail (← load (·.interestAccounts.get owner)) .notFound
  let (account, _) ← orFail (settle account ctx.now) .overflow
  require (amount ≤ account.principal) .insufficientBalance
  let newPrincipal ← orFail (checkedSub account.principal amount) .overflow
  transferOut H owner amount
  save (fun st => st.setInterest owner (account.adopt st newPrincipal ctx.now))
  noteTouch ctx owner
  publish (.interestWithdraw owner amount newPrincipal ctx.now)

def interestClaim (owner : Address) : Action W Int := do
  extendInstanceTtl
  requireNotPaused
  requireAuth H ctx owner
  let account ← orFail (← load (·.interestAccounts.get owner)) .notFound
  let (account, credited) ← orFail (settle account ctx.now) .overflow
  save (fun st => st.setInterest owner (account.adopt st account.principal ctx.now))
  publish (.interestClaimed owner credited account.principal ctx.now)
  pure credited

def accrued (owner : Address) : Action W Int := do
  let account ← orFail (← load (·.interestAccounts.get owner)) .notFound
  orFail (account.accruedAt ctx.now) .overflow

/-! ### Bounds on compounding -/

/-- Basis points times periods in a year: the denominator of the rate of one period. -/
def rateDenominator (periodsPerYear : Nat) : Int := interestBps * periodsPerYear

theorem scale_pos : 0 < scale := by decide

theorem rateDenominator_pos (frequency : CompoundFrequency) :
    0 < rateDenominator frequency.periodsPerYear := by
  cases frequency <;> decide

theorem periodFactor_bounds {rateBps periodsPerYear : Nat} {factor : Int}
    (hp : 0 < rateDenominator periodsPerYear)
    (h : periodFactor rateBps periodsPerYear = some factor) :
    scale ≤ factor ∧ factor * rateDenominator periodsPerYear ≤
      scale * (rateDenominator periodsPerYear + rateBps) := by
  simp only [periodFactor, checked_rules] at h
  obtain ⟨_, ⟨-, rfl⟩, _, ⟨-, rfl⟩, h⟩ := h
  have hr : (0 : Int) ≤ rateBps := Int.natCast_nonneg _
  exact ⟨mulDivWide_ge hp scale_pos.le (le_add_of_nonneg_right hr) h,
    mulDivWide_mul_le hp scale_pos.le (add_nonneg hp.le hr) h⟩

/-- Rounding down at every product never credits more than exact compounding, and interest never
takes anything away. -/
theorem compound_bounds {principal compounded : Int} {rateBps periodsPerYear periods : Nat}
    (hps : 0 < rateDenominator periodsPerYear) (hp : 0 ≤ principal)
    (h : compound principal rateBps periodsPerYear periods = some compounded) :
    principal ≤ compounded ∧ compounded * rateDenominator periodsPerYear ^ periods ≤
      principal * (rateDenominator periodsPerYear + rateBps) ^ periods := by
  generalize hD : rateDenominator periodsPerYear = D at hps ⊢
  have hr : (0 : Int) ≤ rateBps := Int.natCast_nonneg _
  unfold compound at h
  split_ifs at h with hsm
  · obtain rfl := Option.some.inj h
    have hle : D ^ periods ≤ (D + rateBps) ^ periods :=
      pow_le_pow_left₀ hps.le (by omega) periods
    exact ⟨le_refl _, mul_le_mul_of_nonneg_left hle hp⟩
  · simp only [checked_rules] at h
    obtain ⟨factor, hft, growth, hgr, h⟩ := h
    obtain ⟨hf, hfc⟩ := periodFactor_bounds (hD ▸ hps) hft
    obtain ⟨hg, hgw⟩ := powFloor_bounds scale_pos hf hgr
    have hs := scale_pos
    have hfr : 0 ≤ factor := hs.le.trans hf
    have hpr := mulDivWide_mul_le hs hp (hs.le.trans hg) h
    refine ⟨mulDivWide_ge hs hp hg h, ?_⟩
    rw [hD] at hfc
    -- every factor of the scale cancels
    have hc : 0 < scale * scale ^ periods := by positivity
    refine le_of_mul_le_mul_right ?_ hc
    calc compounded * D ^ periods * (scale * scale ^ periods)
        = compounded * scale * (D ^ periods * scale ^ periods) := by ring
      _ ≤ principal * growth * (D ^ periods * scale ^ periods) :=
          mul_le_mul_of_nonneg_right hpr (by positivity)
      _ = growth * scale ^ periods * (principal * D ^ periods) := by ring
      _ ≤ scale * factor ^ periods * (principal * D ^ periods) :=
          mul_le_mul_of_nonneg_right hgw (by positivity)
      _ = (factor * D) ^ periods * (principal * scale) := by rw [mul_pow]; ring
      _ ≤ (scale * (D + rateBps)) ^ periods * (principal * scale) :=
          mul_le_mul_of_nonneg_right (pow_le_pow_left₀ (by positivity) hfc _)
            (by positivity)
      _ = principal * (D + rateBps) ^ periods * (scale * scale ^ periods) := by rw [mul_pow]; ring

/-! ### What a successful call paid and wrote -/

/-- Settling credits exactly what the principal grows by, and moves the anchor by the whole
periods. -/
theorem settle_some {account settled : InterestAccount} {now : Nat} {credited : Int}
    (h : settle account now = some (settled, credited)) :
    ∃ principal, credited = principal - account.principal ∧
      compound account.principal account.rateBps account.frequency.periodsPerYear
        (account.periodsAt now) = some principal ∧
      settled = { account with
        principal := principal
        lastCompoundAt := account.lastCompoundAt +
          account.periodsAt now * account.frequency.periodSeconds } := by
  simp only [settle] at h
  split_ifs at h with hz
  · obtain ⟨rfl, rfl⟩ := Prod.mk.inj (Option.some.inj h)
    refine ⟨account.principal, (sub_self _).symm, by simp [compound, hz], ?_⟩
    rw [hz, Nat.zero_mul, Nat.add_zero]
  · simp only [checkedMulU64_some, checkedAddU64_some, Prod.mk.injEq, checked_rules] at h
    obtain ⟨principal, hc, _, ⟨-, rfl⟩, _, ⟨-, rfl⟩, _, ⟨-, rfl⟩, rfl, rfl⟩ := h
    exact ⟨principal, rfl, hc, rfl⟩

theorem settle_principal {account settled : InterestAccount} {now : Nat} {credited : Int}
    (h : settle account now = some (settled, credited)) :
    settled.principal = account.principal + credited := by
  obtain ⟨principal, rfl, -, rfl⟩ := settle_some h
  exact (add_sub_cancel _ _).symm

theorem settle_nonneg {account settled : InterestAccount} {now : Nat} {credited : Int}
    (hp : 0 ≤ account.principal) (h : settle account now = some (settled, credited)) :
    0 ≤ credited ∧ 0 ≤ settled.principal := by
  obtain ⟨principal, rfl, hc, rfl⟩ := settle_some h
  obtain ⟨hge, -⟩ := compound_bounds (rateDenominator_pos account.frequency) hp hc
  exact ⟨by omega, hp.trans hge⟩

theorem interestOf_some {st : Store} {owner : Address} {account : InterestAccount} (now : Nat)
    (h : st.interestAccounts.get owner = some account) : st.interestOf owner now = account := by
  simp [Store.interestOf, h]

variable {ctx} {self : Address} {s t : Sys World} {u : Unit} {owner : Address} {amount : Int}

/-- A deposit settles the account, adds to it, and then counts as activity, which is noted among the
reward states. -/
theorem interestDeposit_ok (h : interestDeposit (exact self) ctx owner amount s = .ok (u, t)) :
    owner ≠ self ∧ 0 < amount ∧ ∃ settled credited states,
      settle (s.store.interestOf owner ctx.now) ctx.now = some (settled, credited) ∧
      s.world.pay owner self amount = some t.world ∧
      let st := s.store.setInterest owner
        (settled.adopt s.store (settled.principal + amount) ctx.now)
      t.store = st.noteTouch owner ctx.now ∧ t.store = st.setRewardStates states := by
  simp only [interestDeposit, transferIn, noteTouch, Prod.exists, entry_rules] at h
  obtain ⟨-, -, ⟨-, hne⟩, hp, settled, credited, hs, _, ⟨-, rfl⟩, -, w, hw, rfl⟩ := h
  obtain ⟨states, hst⟩ := noteTouch_states _ owner ctx.now
  exact ⟨hne, hp, settled, credited, states, hs, hw, rfl, hst⟩

theorem interestWithdraw_ok (h : interestWithdraw (exact self) ctx owner amount s = .ok (u, t)) :
    0 < amount ∧ ∃ account settled credited states,
      s.store.interestAccounts.get owner = some account ∧
      settle account ctx.now = some (settled, credited) ∧ amount ≤ settled.principal ∧
      s.world.pay self owner amount = some t.world ∧
      let st := s.store.setInterest owner
        (settled.adopt s.store (settled.principal - amount) ctx.now)
      t.store = st.noteTouch owner ctx.now ∧ t.store = st.setRewardStates states := by
  simp only [interestWithdraw, transferOut, noteTouch, Prod.exists, entry_rules] at h
  obtain ⟨-, -, -, hp, account, hg, settled, credited, hs, hle, _, ⟨-, rfl⟩, -, w, hw, rfl⟩ := h
  obtain ⟨states, hst⟩ := noteTouch_states _ owner ctx.now
  exact ⟨hp, account, settled, credited, states, hg, hs, hle, hw, rfl, hst⟩

theorem interestClaim_ok {W : Type} {H : Host W} {s t : Sys W} {credited : Int}
    (h : interestClaim H ctx owner s = .ok (credited, t)) :
    ∃ account settled, s.store.interestAccounts.get owner = some account ∧
      settle account ctx.now = some (settled, credited) ∧ t.world = s.world ∧
      t.store = s.store.setInterest owner
        (settled.adopt s.store settled.principal ctx.now) := by
  simp only [interestClaim, Prod.exists, entry_rules] at h
  obtain ⟨-, -, -, account, hg, settled, _, hs, rfl, rfl⟩ := h
  exact ⟨account, settled, hg, hs, rfl, rfl⟩

end Stow.Vault
