import Stow.Adapter.Honest
import Stow.Adapter.Registry

/-! Moving the funds out of the active strategy: what a migration and the circuit breaker keep. -/
namespace Stow.Adapter

open Stow.Lib Stow.Lib.Contract Option

variable {W E : Type} {H : Host W} {token : Address}

/-- What the adapter owns in a world: its tokens, and its claim on each strategy. Reports are right
and deposits exact, but a withdrawal may bring less than was asked for. Any call may fail. -/
structure Custody (H : Host W) (token : Address) where
  tokens : W → Int
  claim : Address → W → Int
  read_tokens : ∀ {w b w'}, H.tokenBalance token H.self w = some (b, w') →
    b = tokens w ∧ tokens w' = tokens w ∧ ∀ a, claim a w' = claim a w
  read_claim : ∀ {a w r w'}, H.strategyBalance a w = some (r, w') →
    max r 0 = claim a w ∧ tokens w' = tokens w ∧ ∀ b, claim b w' = claim b w
  deposit_exact : ∀ {a x w w'}, H.strategyDeposit token a x w = some w' →
    tokens w' = tokens w - x ∧ claim a w' = claim a w + x
  withdraw_short : ∀ {a x w w'}, H.strategyWithdraw a x w = some w' →
    tokens w ≤ tokens w' ∧ tokens w' ≤ tokens w + x ∧ ∀ b, b ≠ a → claim b w' = claim b w

namespace Custody

variable (C : Custody H token) {s t : Sys W}

/-- The idle balance and the balance of the active strategy. -/
def value (s : Sys W) : Int :=
  C.tokens s.world + s.store.activeInfo.elim 0 (fun info => C.claim info.address s.world)

/-- The funds have moved: all but `haircut` are still there, with `gained` on top, and nothing was
rewritten but the active strategy and the checkpoint. -/
structure Moved (s t : Sys W) (active : Option Nat) (haircut gained : Int) : Prop where
  haircut_nonneg : 0 ≤ haircut
  value_eq : C.value t = C.value s - haircut + gained
  frame : t.store =
    { s.store with activeStrategy := active, deployedBalance := t.store.deployedBalance }

theorem idleBalance_tokens {b : Int} (h : idleBalance H s = .ok (b, t))
    (ht : s.store.token = some token) :
    b = C.tokens s.world ∧ C.tokens t.world = C.tokens s.world ∧
      ∀ a, C.claim a t.world = C.claim a s.world := by
  simp only [idleBalance, bind_load, ht, invoke_ok] at h
  obtain ⟨w, hw, rfl⟩ := h
  exact C.read_tokens hw

variable {strategy : Address}

theorem withdrawFromStrategy_tokens {amount received : Int}
    (h : withdrawFromStrategy H strategy amount s = .ok (received, t))
    (ht : s.store.token = some token) :
    0 ≤ received ∧ received ≤ amount ∧ C.tokens t.world = C.tokens s.world + received ∧
      ∀ a, a ≠ strategy → C.claim a t.world = C.claim a s.world := by
  simp only [withdrawFromStrategy, bind_rules] at h
  obtain ⟨-, h⟩ := h
  obtain ⟨before, s₁, hb, h⟩ := Call.bind_ok.mp h
  obtain ⟨w, hw, h⟩ := bind_perform.mp h
  obtain ⟨after, s₂, haf, h⟩ := Call.bind_ok.mp h
  simp only [Call.orFail_ok, checkedSub_some] at h
  obtain ⟨⟨-, rfl⟩, rfl⟩ := h
  have htoken₁ : s₁.store.token = some token := by rw [(idleBalance_quiet hb).1, ht]
  obtain ⟨rfl, htokens₁, hclaims₁⟩ := C.idleBalance_tokens hb ht
  obtain ⟨hle, hge, ho⟩ := C.withdraw_short hw
  obtain ⟨hr, htokens₂, hclaims₂⟩ := C.idleBalance_tokens haf htoken₁
  dsimp only at hr htokens₂
  refine ⟨by omega, by omega, by omega, fun a ha => ?_⟩
  rw [hclaims₂ a, ho a ha, hclaims₁ a]

/-- What the strategy reported is the claim on it, and no more than that arrived. -/
theorem withdrawDeployed_tokens {reported received : Int}
    (h : withdrawDeployed H strategy s = .ok ((reported, received), t))
    (htk : s.store.token = some token) :
    reported = C.claim strategy s.world ∧ 0 ≤ received ∧ received ≤ reported ∧
      C.tokens t.world = C.tokens s.world + received ∧
      ∀ a, a ≠ strategy → C.claim a t.world = C.claim a s.world := by
  obtain ⟨deployed, s₁, hb, h⟩ := Call.bind_ok.mp h
  obtain ⟨⟨hs, -⟩, hn⟩ := strategyBalance_quiet hb
  obtain ⟨r, w, hr, hm, rfl⟩ := strategyBalance_ok.mp hb
  obtain ⟨hc, ht, hcl⟩ := C.read_claim hr
  rcases Call.ite_ok.mp h with ⟨-, h⟩ | ⟨hz, h⟩
  · obtain ⟨moved, _, hw, h⟩ := Call.bind_ok.mp h
    obtain ⟨hp, rfl⟩ := Call.pure_ok.mp h
    obtain ⟨rfl, rfl⟩ := Prod.mk.inj hp
    obtain ⟨hge, hle, ht', ho⟩ := C.withdrawFromStrategy_tokens hw htk
    refine ⟨by omega, hge, hle, by rw [ht', ht], fun a ha => ?_⟩
    rw [ho a ha, hcl a]
  · obtain ⟨hp, rfl⟩ := Call.pure_ok.mp h
    obtain ⟨rfl, rfl⟩ := Prod.mk.inj hp
    exact ⟨by omega, le_rfl, hn, by rw [ht]; omega, fun a _ => hcl a⟩

theorem redeploy_tokens {moved : Int} {u : Unit} (h : redeploy H strategy moved s = .ok (u, t))
    (hm : 0 ≤ moved) (ht : s.store.token = some token) :
    C.tokens t.world = C.tokens s.world - moved ∧
      C.claim strategy t.world = C.claim strategy s.world + moved := by
  rcases Call.ite_ok.mp h with ⟨-, h⟩ | ⟨hz, h⟩
  · obtain ⟨-, token', w, ht', hw, rfl⟩ := deployToStrategy_ok.mp h
    rw [ht] at ht'
    obtain rfl := some.inj ht'
    exact C.deposit_exact hw
  · obtain ⟨-, rfl⟩ := Call.pure_ok.mp h
    exact ⟨by omega, by omega⟩

/-- The value after the active strategy was switched. -/
theorem value_of_active {info : StrategyInfo} (h : s.store.activeInfo = some info) :
    C.value s = C.tokens s.world + C.claim info.address s.world := by
  simp [value, h]

theorem migrateStrategy_moved {ctx : Ctx} {caller : Address} {newId : Nat} {u : Unit}
    (hs : s.store.registry.Safe) (htk : s.store.token = some token)
    (h : migrateStrategy H ctx caller newId s = .ok (u, t)) :
    ∃ oldInfo newInfo reported received s₁, s.store.activeInfo = some oldInfo ∧
      s.store.strategies.get newId = some newInfo ∧
      withdrawDeployed H oldInfo.address s = .ok ((reported, received), s₁) ∧
      C.Moved s t (some newId) (reported - received) (C.claim newInfo.address s.world) := by
  obtain ⟨oldId, oldInfo, newInfo, s₁, s₂, reported, received, hold, hne, hoi, hn, hl, hw, hre,
    hst, hwr⟩ := migrateStrategy_ok h
  have ha : s.store.activeInfo = some oldInfo := by simp [Store.activeInfo, hold, hoi]
  have ha' : t.store.activeInfo = some newInfo := by simp [Store.activeInfo, hst, hn]
  -- Both strategies are live, so the new one is not the old one under another id.
  have had : newInfo.address ≠ oldInfo.address := by
    intro heq
    obtain ⟨_, hg, hl'⟩ := hs.active_live oldId hold
    obtain rfl := some.inj (hoi.symm.trans hg)
    exact hne (hs.distinct newId oldId newInfo oldInfo hn hoi hl hl' heq).symm
  have htoken₁ : s₁.store.token = some token := by rw [(withdrawDeployed_quiet hw).1, htk]
  obtain ⟨hr, hge, hle, ht, ho⟩ := C.withdrawDeployed_tokens hw htk
  obtain ⟨ht', hc⟩ := C.redeploy_tokens hre hge htoken₁
  refine ⟨oldInfo, newInfo, reported, received, s₁, ha, hn, hw, by omega, ?_, ?_⟩
  · rw [C.value_of_active ha', C.value_of_active ha, hwr, ht', hc,
      ho newInfo.address had, ht, ← hr]
    ring
  · rw [hst]

theorem emergencyWithdrawAll_moved {ctx : Ctx} {caller : Address} {recovered : Int}
    (htk : s.store.token = some token)
    (h : emergencyWithdrawAll H ctx caller s = .ok (recovered, t)) :
    ∃ info reported s₁, s.store.activeInfo = some info ∧
      withdrawDeployed H info.address s = .ok ((reported, recovered), s₁) ∧
      C.Moved s t none (reported - recovered) 0 := by
  obtain ⟨id, info, s₁, reported, hid, hi, hw, hst, hwr⟩ := emergencyWithdrawAll_ok h
  have ha : s.store.activeInfo = some info := by simp [Store.activeInfo, hid, hi]
  obtain ⟨hr, hge, hle, ht, -⟩ := C.withdrawDeployed_tokens hw htk
  refine ⟨info, reported, s₁, ha, hw, by omega, ?_, ?_⟩
  · have hn : t.store.activeInfo = none := by simp [Store.activeInfo, hst, Store.setActive]
    rw [C.value_of_active ha, value, hn, hwr, ht, ← hr, elim_none]
    ring
  · rw [hst]
    rfl

end Custody

/-- A call that the operation makes to a strategy fails: the withdrawal from the active one, or the
deposit of what arrived into the one at `target`. -/
def StrategyFails (H : Host W) (s : Sys W) (target : Option Address) : Prop :=
  ∃ info, s.store.activeInfo = some info ∧
    ((∀ r s₁, withdrawDeployed H info.address s ≠ .ok (r, s₁)) ∨
      ∃ r s₁ a, withdrawDeployed H info.address s = .ok (r, s₁) ∧ target = some a ∧
        ∀ s₂, redeploy H a r.2 s₁ ≠ .ok ((), s₂))

theorem migrateStrategy_fails {ctx : Ctx} {caller : Address} {newId : Nat} {newInfo : StrategyInfo}
    {s : Sys W} (hn : s.store.strategies.get newId = some newInfo)
    (hf : StrategyFails H s (some newInfo.address)) :
    (migrateStrategy H ctx caller newId).after s = s := by
  rcases (migrateStrategy H ctx caller newId).after_cases s with ⟨_, t, h, -⟩ | ⟨-, haf⟩
  · obtain ⟨oldId, oldInfo, newInfo', s₁, s₂, reported, received, hold, -, hoi, hn', -, hw, hre,
      -⟩ := migrateStrategy_ok h
    obtain ⟨info, hac, hf⟩ := hf
    simp only [Store.activeInfo, hold, bind_some, hoi, some.injEq] at hac
    obtain rfl := hac
    obtain rfl := some.inj (hn.symm.trans hn')
    rcases hf with hf | ⟨r, s₁', a, hw', ha, hf⟩
    · exact absurd hw (hf _ _)
    · rw [hw] at hw'
      obtain ⟨rfl, rfl⟩ := Prod.mk.inj (Except.ok.inj hw')
      obtain rfl := some.inj ha
      exact absurd hre (hf _)
  · exact haf

theorem emergencyWithdrawAll_fails {ctx : Ctx} {caller : Address} {s : Sys W}
    (hf : StrategyFails H s none) : (emergencyWithdrawAll H ctx caller).after s = s := by
  rcases (emergencyWithdrawAll H ctx caller).after_cases s with ⟨_, t, h, -⟩ | ⟨-, ha⟩
  · obtain ⟨id, info', s₁, reported, hid, hi, hw, -⟩ := emergencyWithdrawAll_ok h
    obtain ⟨info, hac, hf⟩ := hf
    simp only [Store.activeInfo, hid, bind_some, hi, some.injEq] at hac
    obtain rfl := hac
    rcases hf with hf | ⟨_, _, _, -, hn, -⟩
    · exact absurd hw (hf _ _)
    · exact absurd hn (some_ne_none _).symm
  · exact ha

/-- In every reachable state, with strategies that take deposits in full and may return less than
asked for: a migration and the circuit breaker change the adapter's funds by exactly the shortfall
of the old strategy, a migration also takes over what the new strategy already held, and nothing
but the active strategy and the checkpoint is rewritten. If a strategy call fails, everything stays
as it was. -/
theorem moving_funds {W E : Type} {H : Host W} {token : Address} (C : Custody H token)
    (outside : E → W → W) (w : W) (moves : List (Move E)) :
    let s := run H outside w moves
    s.store.token = some token →
    (∀ ctx caller newId u t, migrateStrategy H ctx caller newId s = .ok (u, t) →
      ∃ oldInfo newInfo reported received s₁, s.store.activeInfo = some oldInfo ∧
        s.store.strategies.get newId = some newInfo ∧
        withdrawDeployed H oldInfo.address s = .ok ((reported, received), s₁) ∧
        C.Moved s t (some newId) (reported - received) (C.claim newInfo.address s.world)) ∧
    (∀ ctx caller recovered t, emergencyWithdrawAll H ctx caller s = .ok (recovered, t) →
      ∃ info reported s₁, s.store.activeInfo = some info ∧
        withdrawDeployed H info.address s = .ok ((reported, recovered), s₁) ∧
        C.Moved s t none (reported - recovered) 0) ∧
    (∀ ctx caller newId newInfo, s.store.strategies.get newId = some newInfo →
      StrategyFails H s (some newInfo.address) →
      (migrateStrategy H ctx caller newId).after s = s) ∧
    (∀ ctx caller, StrategyFails H s none → (emergencyWithdrawAll H ctx caller).after s = s) := by
  intro s ht
  have hk : RegistryKept s := registryKept_run w moves
  exact ⟨fun _ _ _ _ _ h => C.migrateStrategy_moved hk.2 ht h,
    fun _ _ _ _ h => C.emergencyWithdrawAll_moved ht h,
    fun _ _ _ _ hn hf => migrateStrategy_fails hn hf,
    fun _ _ hf => emergencyWithdrawAll_fails hf⟩

/-- Honest but for a tenth of every withdrawal, which the strategy keeps. -/
def skimming (self : Address) : Host World :=
  { honest self with
    strategyWithdraw := fun strategy amount w =>
      if strategy ≠ self ∧ 0 ≤ amount ∧ amount ≤ w.claimOn strategy then
        some ⟨w.tokens.set self (w.tokens self + (amount - amount / 10).toNat),
          w.claims.set strategy (w.claimOn strategy - amount.toNat)⟩
      else none }

variable {self a : Address} {w w' : World}

theorem skimming_deposit {token : Address} {x : Int}
    (h : (skimming self).strategyDeposit token a x w = some w') :
    (w'.tokens self : Int) = w.tokens self - x ∧ (w'.claimOn a : Int) = w.claimOn a + x := by
  simp only [skimming, honest, ite_none_right_eq_some, some.injEq] at h
  obtain ⟨⟨-, h₀, hle⟩, rfl⟩ := h
  refine ⟨?_, ?_⟩
  · simp only [Ledger.set_self]
    omega
  · rw [claimOn_set, if_pos rfl]
    omega

theorem skimming_withdraw {x : Int} (h : (skimming self).strategyWithdraw a x w = some w') :
    (w.tokens self : Int) ≤ w'.tokens self ∧ (w'.tokens self : Int) ≤ w.tokens self + x ∧
      ∀ b, b ≠ a → (w'.claimOn b : Int) = w.claimOn b := by
  simp only [skimming, honest, ite_none_right_eq_some, some.injEq] at h
  obtain ⟨⟨-, h₀, hle⟩, rfl⟩ := h
  refine ⟨?_, ?_, fun b hb => ?_⟩
  · simp only [Ledger.set_self]
    omega
  · simp only [Ledger.set_self]
    omega
  · rw [claimOn_set, if_neg hb]

theorem skimming_balance {r : Int} (h : (skimming self).strategyBalance a w = some (r, w')) :
    max r 0 = w.claimOn a ∧ (w'.tokens self : Int) = w.tokens self ∧
      ∀ b, (w'.claimOn b : Int) = w.claimOn b := by
  simp only [skimming, honest, ite_none_left_eq_some, some.injEq,
    Prod.mk.injEq] at h
  obtain ⟨-, rfl, rfl⟩ := h
  exact ⟨by omega, rfl, fun _ => rfl⟩

theorem skimming_tokenBalance {token : Address} {b : Int}
    (h : (skimming self).tokenBalance token self w = some (b, w')) :
    b = w.tokens self ∧ (w'.tokens self : Int) = w.tokens self ∧
      ∀ a, (w'.claimOn a : Int) = w.claimOn a := by
  simp only [skimming, honest, some.injEq, Prod.mk.injEq] at h
  obtain ⟨rfl, rfl⟩ := h
  exact ⟨rfl, rfl, fun _ => rfl⟩

def skimmingCustody (self token : Address) : Custody (skimming self) token where
  tokens w := w.tokens self
  claim a w := w.claimOn a
  read_tokens := skimming_tokenBalance
  read_claim := skimming_balance
  deposit_exact := skimming_deposit
  withdraw_short := skimming_withdraw

/-- A thousand in the first strategy, with a second one to move to that holds fifty already. -/
def migratingRun : List (Move Outside) :=
  [.world (.wallet 3 1000), .call ⟨0, []⟩ (.initializeAdapter 1 2 9),
    .call ⟨0, [1]⟩ (.registerStrategy 1 7 "pool"), .call ⟨0, [1]⟩ (.registerStrategy 1 8 "market"),
    .call ⟨0, [1]⟩ (.setActiveStrategy 1 1), .call ⟨0, [3]⟩ (.deposit 3 1000),
    .world (.gain 8 50)]

/-- The old strategy keeps a hundred of the thousand, and the new one then holds `950`. -/
theorem moving_funds_skimmed :
    let s := run (skimming 0) (outside 0) genesis migratingRun
    let t := (migrateStrategy (skimming 0) ⟨0, [1]⟩ 1 2).after s
    let C := skimmingCustody 0 9
    C.value s = 1000 ∧ C.value t = 950 ∧ ∃ haircut, C.Moved s t (some 2) haircut 50 := by
  intro s t C
  refine ⟨by decide +kernel, by decide +kernel, ?_⟩
  have h := Call.after_of_succeeds (x := migrateStrategy (skimming 0) ⟨0, [1]⟩ 1 2) (s := s)
    (by decide +kernel)
  obtain ⟨hm, -⟩ := moving_funds C (outside 0) genesis migratingRun (by decide +kernel)
  obtain ⟨_, newInfo, reported, received, _, -, hn, -, hmv⟩ := hm _ _ _ _ _ h
  have ha : newInfo.address = 8 := by
    have hg : (s.store.strategies.get 2).map StrategyInfo.address = some 8 := by decide +kernel
    rw [hn] at hg
    exact some.inj hg
  have hc : C.claim newInfo.address s.world = 50 := by
    rw [ha]
    decide +kernel
  exact ⟨reported - received, hc ▸ hmv⟩

end Stow.Adapter
