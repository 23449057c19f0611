import Stow.Lib.Quotes
import Stow.Adapter.Effects

/-! A deposit in the honest world: exactly when it succeeds, and what it leaves. -/
namespace Stow.Adapter

open Stow.Lib Stow.Lib.Contract

variable {self : Address} {ctx : Ctx} {s t : Sys World} {source : Address} {amount shares : Int}

/-- An amount is priced as the quote says. -/
theorem convertToShares_iff (hps : 0 < amount) (hne : shares ≠ 0) :
    convertToShares (honest self) amount s = .ok (shares, t) ↔
      Quote s.store.totalShares (s.gross self) s.store.liabilities amount shares ∧ s = t := by
  rw [convertToShares_ok]
  constructor
  · rintro ⟨-, ⟨hz, rfl, rfl⟩ | ⟨hs, pool, hp, hne₀, hf, rfl⟩⟩
    · exact ⟨⟨hne, .inl ⟨hz, rfl⟩⟩, rfl⟩
    · obtain ⟨⟨hg, ho, hn⟩, rfl, rfl⟩ := tryTotalAssets_iff.mp hp
      have hnn : 0 < s.net self := by
        have hne₀ : max (s.net self) 0 ≠ 0 := hne₀
        omega
      have heq : s.pool self = s.gross self - s.store.liabilities := max_eq_left hnn.le
      rw [heq] at hf hne ⊢
      exact ⟨⟨hne, .inr ⟨hs, hg, ho, hn, hnn, hf, rfl⟩⟩, rfl⟩
  · rintro ⟨⟨-, ⟨hz, rfl⟩ | ⟨hs, hg, ho, hn, hnn, hf, rfl⟩⟩, rfl⟩
    · exact ⟨hps.le, .inl ⟨hz, rfl, rfl⟩⟩
    · have heq : s.pool self = s.gross self - s.store.liabilities := max_eq_left hnn.le
      have hp := tryTotalAssets_iff.mpr ⟨⟨hg, ho, hn⟩, heq.symm, rfl⟩
      exact ⟨hps.le, .inr ⟨hs, _, hp, hnn.ne', hf, rfl⟩⟩

/-- The cap, read and checked against one state. -/
theorem cap_iff {active : Option StrategyInfo} :
    (∃ deployed, cappedBalance (honest self) active s = .ok (deployed, s) ∧
      checkDepositCap active deployed amount s = .ok ((), s)) ↔
      ∀ info, active = some info → 0 < info.depositCap → info.address ≠ self ∧
        FitsI128 (s.world.claimOn info.address + amount) ∧
        s.world.claimOn info.address + amount ≤ info.depositCap := by
  cases active with
  | none => simp [cappedBalance, checkDepositCap]
  | some info =>
    simp only [cappedBalance, checkDepositCap, Call.ite_ok, Call.require_ok, Option.some.injEq,
      forall_eq', bind_rules]
    constructor
    · rintro ⟨deployed, ⟨hcp, hb⟩ | ⟨hcp, -⟩, ⟨hcp', hc⟩ | ⟨hcp', -⟩⟩ hp
      · obtain ⟨hne, rfl, -⟩ := strategyBalance_honest hb
        obtain ⟨_, ⟨hf, rfl⟩, hle, -⟩ := hc
        exact ⟨hne, hf, hle⟩
      · exact absurd hp hcp'
      · exact absurd hp hcp
      · exact absurd hp hcp
    · intro h
      by_cases hcp : 0 < info.depositCap
      · obtain ⟨hne, hf, hle⟩ := h hcp
        exact ⟨_, .inl ⟨hcp, strategyBalance_honest_ok hne⟩,
          .inl ⟨hcp, _, ⟨hf, rfl⟩, hle, trivial⟩⟩
      · exact ⟨0, .inr ⟨hcp, rfl, trivial⟩, .inr ⟨hcp, trivial, trivial⟩⟩

theorem transferIn_iff {u : Unit} (hne : source ≠ self) :
    transferIn (honest self) source amount s = .ok (u, t) ↔
      0 < amount ∧ s.store.token ≠ none ∧ amount ≤ s.world.tokens source ∧
        t = ⟨s.store, s.log,
          ⟨(s.world.tokens.set source (s.world.tokens source - amount.toNat)).set self
            (s.world.tokens self + amount.toNat), s.world.claims⟩⟩ := by
  have hs : (s.world.tokens.set source (s.world.tokens source - amount.toNat)) self =
      s.world.tokens self := Ledger.set_other _ _ hne.symm
  rw [transferIn_ok]
  simp only [honest, Ledger.transfer, Option.map_eq_some_iff, Option.ite_none_right_eq_some,
    Option.some.injEq, hs]
  constructor
  · rintro ⟨hp, token, _, ht, ⟨_, ⟨⟨-, hle⟩, rfl⟩, rfl⟩, rfl⟩
    exact ⟨hp, by simp [ht], hle, rfl⟩
  · rintro ⟨hp, ht, hle, rfl⟩
    obtain ⟨token, ht⟩ := Option.ne_none_iff_exists'.mp ht
    exact ⟨hp, token, _, ht, ⟨_, ⟨⟨hp.le, hle⟩, rfl⟩, rfl⟩, rfl⟩

theorem forward_address {active : Option StrategyInfo} {u : Unit}
    (h : forward (honest self) active amount s = .ok (u, t)) :
    ∀ info, active = some info → info.address ≠ self := by
  rintro info rfl
  exact (deployToStrategy_honest h).1

theorem forward_total {active : Option StrategyInfo} (hp : 0 < amount)
    (ht : s.store.token ≠ none) (hh : amount ≤ s.world.tokens self)
    (hne : ∀ info, active = some info → info.address ≠ self) :
    ∃ t, forward (honest self) active amount s = .ok ((), t) := by
  cases active with
  | none => exact ⟨s, rfl⟩
  | some info =>
    obtain ⟨token, ht⟩ := Option.ne_none_iff_exists'.mp ht
    exact ⟨_, deployToStrategy_ok.mpr ⟨hp, token, _, ht,
      if_pos ⟨hne info rfl, hp.le, hh⟩, rfl⟩⟩

/-- A deposit in the honest world, in full. -/
theorem deposit_iff :
    deposit (honest self) ctx source amount s = .ok (shares, t) ↔
      (source ∈ ctx.auths ∧ source ≠ self) ∧ s.store.paused = false ∧ 0 < amount ∧
      Quote s.store.totalShares (s.gross self) s.store.liabilities amount shares ∧
      (∀ info, s.store.activeInfo = some info → 0 < info.depositCap → info.address ≠ self ∧
        FitsI128 (s.world.claimOn info.address + amount) ∧
        s.world.claimOn info.address + amount ≤ info.depositCap) ∧
      FitsI128 (s.store.totalShares + shares) ∧
      FitsI128 ((s.store.positionOf source ctx.now).shares + shares) ∧
      ∃ s₁ s₂, transferIn (honest self) source amount s = .ok ((), s₁) ∧
        forward (honest self) s.store.activeInfo amount s₁ = .ok ((), s₂) ∧
        t = ⟨(s.store.setShares source ctx.now
            ((s.store.positionOf source ctx.now).shares + shares)).setTotalShares
              (s.store.totalShares + shares),
          s.log ++ [.deposited source amount shares
            ((s.store.positionOf source ctx.now).shares + shares) ctx.now], s₂.world⟩ := by
  rw [deposit_ok]
  constructor
  · rintro ⟨hs, hr, hps, hne, ht, hp, _, _, s₁, s₂, deployed, hcn, hcp,
      hc, hin, hf, rfl⟩
    obtain ⟨hq, rfl⟩ := (convertToShares_iff hps hne).mp hcn
    obtain rfl := cappedBalance_honest hcp
    exact ⟨hs, hr, hps, hq, cap_iff.mp ⟨deployed, hcp, hc⟩, ht, hp,
      s₁, s₂, hin, hf, rfl⟩
  · rintro ⟨hs, hr, hps, hq, hrm, ht, hp, s₁, s₂, hin, hf, rfl⟩
    obtain ⟨deployed, hcp, hc⟩ := cap_iff.mpr hrm
    exact ⟨hs, hr, hps, hq.1, ht, hp, s, s, s₁, s₂, deployed,
      (convertToShares_iff hps hq.1).mpr ⟨hq, rfl⟩, hcp, hc, hin, hf, rfl⟩

/-- What one deposit of an amount for so many shares leaves. -/
structure Deposited (adapter : Address) (ctx : Ctx) (source : Address) (amount shares : Int)
    (s t : Sys World) : Prop where
  store : t.store = { s.store with
    positions := writeShares s.store.positions source ctx.now
      ((positionOf s.store.positions source ctx.now).shares + shares)
    totalShares := s.store.totalShares + shares }
  idle : t.idle adapter = s.idle adapter + (amount - s.store.lentOut amount)
  live : t.live adapter = s.live adapter + s.store.lentOut amount
  wallets : ∀ a, a ≠ adapter → t.world.tokens a =
    (s.world.tokens.set source (s.world.tokens source - amount.toNat)) a

theorem Deposited.gross (h : Deposited self ctx source amount shares s t) :
    t.gross self = s.gross self + amount := by
  rw [Sys.gross, h.idle, h.live, Sys.gross]
  ring

theorem deposited (h : deposit (honest self) ctx source amount s = .ok (shares, t)) :
    Deposited self ctx source amount shares s t := by
  obtain ⟨⟨-, hne⟩, -, -, -, -, -, -, s₁, s₂, hin, hf, ht⟩ := deposit_iff.mp h
  obtain ⟨hstore₁, hc, hidle₁⟩ := transferIn_honest hne hin
  have hac : s.store.activeInfo = s₁.store.activeInfo := by rw [hstore₁]
  rw [hac] at hf
  obtain ⟨hstore₂, hidle₂, hlive₂, -, hw⟩ := forward_honest hf
  rw [hstore₁] at hstore₂
  obtain ⟨hlive₁, -⟩ := Sys.live_congr (s := s) self (by rw [hstore₁]) hc
  rw [hstore₁] at hidle₂ hlive₂
  obtain ⟨hi, hl, -⟩ := Sys.holdings_congr (s := s₂) (t := t)
    (by rw [ht, hstore₂]; rfl) (by rw [ht, hstore₂]; rfl) (by rw [ht]) self
  refine ⟨by rw [ht]; rfl, by omega, by omega, fun a ha => ?_⟩
  obtain ⟨-, -, -, rfl⟩ := (transferIn_iff hne).mp hin
  rw [ht]
  exact (hw a ha).trans (Ledger.set_other _ _ ha)

end Stow.Adapter
