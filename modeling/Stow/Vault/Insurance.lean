import Stow.Vault.Admin

/-! The insurance fund: premiums on deposits, approved claims, payouts. -/
namespace Stow.Vault

open Stow.Lib Stow.Lib.Contract Call

variable {W : Type} (H : Host W) (ctx : Ctx)

def Store.setInsuranceFund (st : Store) (balance : Int) : Store :=
  { st with insuranceFundBalance := balance }

theorem Store.setInsuranceFund_self (st : Store) :
    st.setInsuranceFund st.insuranceFundBalance = st := rfl

def setInsurancePremiumBps (caller : Address) (bps : Nat) : Action W Unit := do
  extendInstanceTtl
  requireAdmin H ctx caller
  require (bps ≤ 10000) .invalidParameters
  save (fun st => { st with insurancePremiumBps := bps })
  publish (.insurancePremiumSet caller bps ctx.now)

def insuranceFund (caller : Address) (amount : Int) : Action W Unit := do
  extendInstanceTtl
  requireAdmin H ctx caller
  require (0 < amount) .invalidAmount
  transferIn H caller amount
  let newBalance ← orFail (checkedAdd (← load (·.insuranceFundBalance)) amount) .overflow
  save (·.setInsuranceFund newBalance)
  publish (.insuranceFunded caller amount newBalance ctx.now)

/-- The part of a deposit that goes to the fund. -/
def collectPremium (depositAmount : Int) : Action W Int := do
  let bps ← load (·.insurancePremiumBps)
  if bps = 0 then pure 0
  else do
    let product ← orFail (checkedMul depositAmount bps) .overflow
    let premium := product.tdiv 10000
    if 0 < premium then do
      let newBalance ← orFail (checkedAdd (← load (·.insuranceFundBalance)) premium) .overflow
      save (·.setInsuranceFund newBalance)
      pure premium
    else pure premium

def setInsuranceMaxClaimBps (caller : Address) (bps : Nat) : Action W Unit := do
  extendInstanceTtl
  requireAdmin H ctx caller
  require (bps ≤ 10000) .invalidParameters
  save (fun st => { st with insuranceMaxClaimBps := bps })

def insuranceApproveClaim (caller claimant : Address) (amount : Int) : Action W Unit := do
  extendInstanceTtl
  requireAdmin H ctx caller
  require (0 < amount) .invalidAmount
  let balance ← load (·.insuranceFundBalance)
  let product ← orFail (checkedMul balance (← load (·.insuranceMaxClaimBps))) .overflow
  require (amount ≤ product.tdiv 10000) .depositCapExceeded
  require (amount ≤ balance) .insufficientBalance
  let existing ← load (·.insuranceClaims.get claimant)
  require (existing.all (·.redeemed)) .conflictingState
  save (fun st => { st with
    insuranceClaims := st.insuranceClaims.set claimant ⟨claimant, amount, ctx.now, false⟩ })
  publish (.insuranceClaimApproved claimant amount ctx.now)

def insuranceRedeemClaim (claimant : Address) : Action W Int := do
  extendInstanceTtl
  requireAuth H ctx claimant
  let claim ← orFail (← load (·.insuranceClaims.get claimant)) .notFound
  require (claim.redeemed = false) .conflictingState
  let balance ← load (·.insuranceFundBalance)
  require (claim.amount ≤ balance) .insufficientBalance
  transferOut H claimant claim.amount
  let newBalance ← orFail (checkedSub balance claim.amount) .overflow
  save (fun st => { st with
    insuranceFundBalance := newBalance
    insuranceClaims := st.insuranceClaims.set claimant { claim with redeemed := true } })
  publish (.insuranceClaimRedeemed claimant claim.amount newBalance ctx.now)
  pure claim.amount

theorem collectPremium_ok {amount premium : Int} {s t : Sys W} (ha : 0 ≤ amount)
    (h : collectPremium amount s = .ok (premium, t)) :
    premium = bpsPart s.store.insurancePremiumBps amount ∧
      t = ⟨s.store.setInsuranceFund (s.store.insuranceFundBalance + premium), s.log, s.world⟩ := by
  have hnn : 0 ≤ bpsPart s.store.insurancePremiumBps amount := bpsPart_nonneg ha
  simp only [collectPremium, bind_load] at h
  rcases ite_ok.mp h with ⟨hb, h⟩ | ⟨-, h⟩
  · obtain ⟨rfl, rfl⟩ := pure_ok.mp h
    exact ⟨by simp [bpsPart, hb], by rw [add_zero, Store.setInsuranceFund_self]⟩
  · simp only [checkedMul_some, bind_rules] at h
    obtain ⟨_, ⟨-, rfl⟩, h⟩ := h
    rcases ite_ok.mp h with ⟨-, h⟩ | ⟨hle, h⟩
    · simp only [bind_rules] at h
      obtain ⟨_, ⟨-, rfl⟩, rfl, rfl⟩ := h
      exact ⟨rfl, rfl⟩
    · obtain ⟨rfl, rfl⟩ := pure_ok.mp h
      unfold bpsPart at hnn
      have hz : (amount * (s.store.insurancePremiumBps : Int)).tdiv 10000 = 0 := by omega
      rw [hz]
      exact ⟨hz.symm, by rw [add_zero, Store.setInsuranceFund_self]⟩

variable {ctx}

section

variable {self : Address} {s t : Sys World} {u : Unit}

/-- What a successful funding paid and wrote. -/
theorem insuranceFund_ok {caller : Address} {amount : Int}
    (h : insuranceFund (exact self) ctx caller amount s = .ok (u, t)) :
    caller ≠ self ∧ s.store.token ≠ none ∧ s.world.pay caller self amount = some t.world ∧
      t.store = s.store.setInsuranceFund (s.store.insuranceFundBalance + amount) := by
  simp only [insuranceFund, transferIn, entry_rules] at h
  obtain ⟨-, ⟨-, -, hne⟩, -, ⟨-, ht, -⟩, w, hw, _, ⟨-, rfl⟩, rfl⟩ := h
  exact ⟨hne, ht, hw, rfl⟩

/-- What a successful payout of a claim paid and wrote. -/
theorem insuranceRedeemClaim_ok {claimant : Address} {paid : Int}
    (h : insuranceRedeemClaim (exact self) ctx claimant s = .ok (paid, t)) :
    claimant ≠ self ∧ s.store.token ≠ none ∧ ∃ claim,
      s.store.insuranceClaims.get claimant = some claim ∧
      claim.redeemed = false ∧ paid = claim.amount ∧ 0 < paid ∧
      paid ≤ s.store.insuranceFundBalance ∧ s.world.pay self claimant paid = some t.world ∧
      t.store = { s.store with
        insuranceFundBalance := s.store.insuranceFundBalance - paid
        insuranceClaims :=
          s.store.insuranceClaims.set claimant { claim with redeemed := true } } := by
  simp only [insuranceRedeemClaim, transferOut, entry_rules] at h
  obtain ⟨-, ⟨-, hne⟩, claim, hg, hr, hle, ⟨hp, ht, -⟩, w, hw, _, ⟨-, rfl⟩, rfl,
    rfl⟩ := h
  exact ⟨hne, ht, claim, hg, hr, rfl, hp, hle, hw, rfl⟩

end

end Stow.Vault
