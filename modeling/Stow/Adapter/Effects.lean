import Stow.Adapter.Honest

/-! What each successful call does in the honest world. -/
namespace Stow.Adapter

open Stow.Lib Stow.Lib.Contract List Call

variable {self : Address} {s t : Sys World} {ctx : Ctx} {op : Op}

/-- The shares an amount mints: all of it at first, then its share of the pool rounded down. -/
def Sys.Mints (self : Address) (s : Sys World) (amount shares : Int) : Prop :=
  (s.store.totalShares = 0 ∧ shares = amount) ∨
    (s.store.totalShares ≠ 0 ∧ 0 < s.pool self ∧
      shares = (amount * s.store.totalShares).tdiv (s.pool self))

/-- The assets that shares redeem. -/
def Sys.Redeems (self : Address) (s : Sys World) (shares assets : Int) : Prop :=
  (s.store.totalShares = 0 ∧ assets = shares) ∨
    (s.store.totalShares ≠ 0 ∧ assets = (shares * s.pool self).tdiv s.store.totalShares)

theorem Sys.pool_nonneg (s : Sys World) : 0 ≤ s.pool self := le_max_right _ _

theorem convertToShares_honest {amount shares : Int}
    (h : convertToShares (honest self) amount s = .ok (shares, t)) :
    s = t ∧ 0 ≤ amount ∧ s.Mints self amount shares := by
  obtain ⟨ha, ⟨hs, rfl, rfl⟩ | ⟨hs, pool, hp, hne, -, rfl⟩⟩ := convertToShares_ok.mp h
  · exact ⟨rfl, ha, .inl ⟨hs, rfl⟩⟩
  · obtain ⟨rfl, rfl⟩ := tryTotalAssets_honest hp
    exact ⟨rfl, ha, .inr ⟨hs, lt_of_le_of_ne s.pool_nonneg hne.symm, rfl⟩⟩

variable {assets : Int}

theorem convertToAssets_honest {shares : Int}
    (h : convertToAssets (honest self) shares s = .ok (assets, t)) :
    s = t ∧ s.Redeems self shares assets := by
  obtain ⟨-, ⟨hs, rfl, rfl⟩ | ⟨hs, pool, hp, -, rfl⟩⟩ := convertToAssets_ok.mp h
  · exact ⟨rfl, .inl ⟨hs, rfl⟩⟩
  · obtain ⟨rfl, rfl⟩ := tryTotalAssets_honest hp
    exact ⟨rfl, .inr ⟨hs, rfl⟩⟩

theorem cappedBalance_honest {active : Option StrategyInfo} {b : Int}
    (h : cappedBalance (honest self) active s = .ok (b, t)) : s = t := by
  cases active with
  | none => exact (pure_ok.mp h).2
  | some info =>
    rcases ite_ok.mp h with ⟨-, h⟩ | ⟨-, h⟩
    · exact (strategyBalance_honest h).2.2
    · exact (pure_ok.mp h).2

variable {u : Unit}

theorem transferIn_honest {source : Address} {amount : Int} (hne : source ≠ self)
    (h : transferIn (honest self) source amount s = .ok (u, t)) :
    t.store = s.store ∧ t.world.claims = s.world.claims ∧ t.idle self = s.idle self + amount := by
  obtain ⟨-, token, w, htoken, hw, rfl⟩ := transferIn_ok.mp h
  simp only [honest, Option.map_eq_some_iff] at hw
  obtain ⟨l, hl, rfl⟩ := hw
  exact ⟨rfl, rfl, by simp [Sys.idle, htoken, Ledger.transfer_target hl hne]⟩

theorem transferOut_honest {target : Address} {amount : Int}
    (h : transferOut (honest self) target amount s = .ok (u, t)) :
    t.store = s.store ∧ t.world.claims = s.world.claims ∧ amount ≤ s.idle self ∧
      t.idle self = if target = self then s.idle self else s.idle self - amount := by
  obtain ⟨-, token, w, htoken, hw, rfl⟩ := transferOut_ok.mp h
  simp only [honest, Option.map_eq_some_iff] at hw
  obtain ⟨l, hl, rfl⟩ := hw
  refine ⟨rfl, rfl, by simpa [Sys.idle, htoken] using (Ledger.transfer_some hl).2.1, ?_⟩
  by_cases hne : target = self
  · subst hne
    simp [Sys.idle, htoken, Ledger.transfer_self hl]
  · simp [Sys.idle, htoken, hne, Ledger.transfer_source hl (Ne.symm hne)]

/-- What a move of `amount` between the adapter and a strategy does: `amount` is what leaves the
adapter, negative for what comes back. -/
structure Lent (adapter strategy : Address) (amount : Int) (s t : Sys World) : Prop where
  store_eq : t.store = s.store
  idle_eq : t.idle adapter = s.idle adapter - amount
  claim_eq : (t.world.claimOn strategy : Int) = s.world.claimOn strategy + amount
  other_eq : ∀ a, a ≠ strategy → t.world.claimOn a = s.world.claimOn a
  claimed_eq : t.claimed = s.claimed + amount

variable {strategy : Address}

theorem deployToStrategy_honest {amount : Int}
    (h : deployToStrategy (honest self) strategy amount s = .ok (u, t)) :
    strategy ≠ self ∧ Lent self strategy amount s t := by
  obtain ⟨-, token, w, htoken, hw, rfl⟩ := deployToStrategy_ok.mp h
  simp only [honest, Option.ite_none_right_eq_some, Option.some.injEq] at hw
  obtain ⟨⟨hne, h₀, hle⟩, rfl⟩ := hw
  refine ⟨hne, rfl, ?_, ?_, ?_, ?_⟩
  · simp only [Sys.idle, htoken, reduceCtorEq, ↓reduceIte, Ledger.set_self]
    omega
  · rw [claimOn_set]
    simp only [↓reduceIte]
    omega
  · intro a ha
    rw [claimOn_set, if_neg ha]
  · simp only [Sys.claimed, claims_sum_set]
    omega

/-- A withdrawal from an honest strategy, in full. -/
theorem withdrawFromStrategy_iff {amount r : Int} (htoken : s.store.token ≠ none) :
    withdrawFromStrategy (honest self) strategy amount s = .ok (r, t) ↔
      0 < amount ∧ strategy ≠ self ∧ amount ≤ s.world.claimOn strategy ∧ FitsI128 amount ∧
        r = amount ∧ t = ⟨s.store, s.log, ⟨s.world.tokens.set self
          (s.world.tokens self + amount.toNat), s.world.claims.set strategy
          (s.world.claimOn strategy - amount.toNat)⟩⟩ := by
  have hi (hp : 0 < amount) (claims : SortedMap Address Nat) : Sys.idle self ⟨s.store, s.log,
      ⟨s.world.tokens.set self (s.world.tokens self + amount.toNat), claims⟩⟩ - s.idle self =
      amount := by
    simp only [Sys.idle, htoken, ↓reduceIte, Ledger.set_self]
    omega
  simp only [withdrawFromStrategy, bind_require, bind_of_ok (idleBalance_total self _),
    bind_perform, orFail_ok, checkedSub_some]
  simp only [honest, Option.ite_none_right_eq_some, Option.some.injEq]
  constructor
  · rintro ⟨hp, _, ⟨⟨hne, -, hle⟩, rfl⟩, ⟨hf, rfl⟩, rfl⟩
    exact ⟨hp, hne, hle, hi hp _ ▸ hf, hi hp _, rfl⟩
  · rintro ⟨hp, hne, hle, hf, rfl, rfl⟩
    exact ⟨hp, _, ⟨⟨hne, hp.le, hle⟩, rfl⟩, ⟨(hi hp _).symm ▸ hf, hi hp _⟩, rfl⟩

theorem withdrawFromStrategy_honest {amount r : Int} (htoken : s.store.token ≠ none)
    (h : withdrawFromStrategy (honest self) strategy amount s = .ok (r, t)) :
    r = amount ∧ strategy ≠ self ∧ Lent self strategy (-amount) s t := by
  obtain ⟨hp, hne, hle, -, rfl, rfl⟩ := (withdrawFromStrategy_iff htoken).mp h
  refine ⟨rfl, hne, rfl, ?_, ?_, ?_, ?_⟩
  · simp only [Sys.idle, htoken, ↓reduceIte, Ledger.set_self]
    omega
  · rw [claimOn_set]
    simp only [↓reduceIte]
    omega
  · intro a ha
    rw [claimOn_set, if_neg ha]
  · simp only [Sys.claimed, claims_sum_set]
    omega

theorem Lent.refl (self strategy : Address) (s : Sys World) : Lent self strategy 0 s s :=
  ⟨rfl, by omega, by omega, fun _ _ => rfl, by omega⟩

theorem Sys.live_of_active {a : Address} (ha : s.store.activeAddress = some a) (hne : a ≠ self) :
    s.live self = s.world.claimOn a := by
  simp [Sys.live, World.liveOn, ha, hne]

/-- A move between the adapter and its active strategy keeps the sum of both. -/
theorem Lent.active {amount : Int} (h : Lent self strategy amount s t)
    (ha : s.store.activeAddress = some strategy) (hne : strategy ≠ self) :
    t.gross self = s.gross self ∧ t.claimed - s.claimed = t.live self - s.live self := by
  have hs := Sys.live_of_active ha hne
  have ht : t.live self = t.world.claimOn strategy :=
    Sys.live_of_active (by rw [h.store_eq, ha]) hne
  have hi := h.idle_eq
  have hc := h.claim_eq
  have htt := h.claimed_eq
  simp only [Sys.gross]
  omega

/-- What of a deposit ends in the strategy. -/
def Store.lentOut (st : Store) (amount : Int) : Int := st.activeInfo.elim 0 (fun _ => amount)

theorem forward_honest {amount : Int}
    (h : forward (honest self) s.store.activeInfo amount s = .ok (u, t)) :
    t.store = s.store ∧ t.idle self = s.idle self - s.store.lentOut amount ∧
      t.live self = s.live self + s.store.lentOut amount ∧
      t.claimed = s.claimed + s.store.lentOut amount ∧
      ∀ a, a ≠ self → t.world.tokens a = s.world.tokens a := by
  unfold Store.lentOut
  cases hi : s.store.activeInfo with
  | none =>
    simp only [hi, forward, pure_ok] at h
    obtain ⟨-, rfl⟩ := h
    exact ⟨rfl, (sub_zero _).symm, (add_zero _).symm, (add_zero _).symm, fun _ _ => rfl⟩
  | some info =>
    simp only [hi, forward] at h
    obtain ⟨hne, hl⟩ := deployToStrategy_honest h
    have hac : s.store.activeAddress = some info.address := by simp [Store.activeAddress, hi]
    refine ⟨hl.store_eq, hl.idle_eq, ?_, hl.claimed_eq, ?_⟩
    · rw [Sys.live_of_active (by rw [hl.store_eq, hac]) hne, Sys.live_of_active hac hne]
      exact hl.claim_eq
    · obtain ⟨-, token, w, -, hw, rfl⟩ := deployToStrategy_ok.mp h
      simp only [honest, Option.ite_none_right_eq_some, Option.some.injEq] at hw
      obtain ⟨-, rfl⟩ := hw
      exact fun a ha => Ledger.set_other _ _ ha

theorem coverShortfall_honest (htoken : s.store.token ≠ none)
    (h : coverShortfall (honest self) assets s = .ok (u, t)) :
    t.store = s.store ∧ t.gross self = s.gross self ∧
      t.claimed - s.claimed = t.live self - s.live self := by
  obtain ⟨idle, _, hid, h⟩ := bind_ok.mp h
  obtain ⟨rfl, rfl⟩ := idleBalance_honest hid
  rcases ite_ok.mp h with ⟨-, h⟩ | ⟨-, h⟩
  · simp only [bind_rules] at h
    obtain ⟨shortfall, -, info, hi, h⟩ := h
    obtain ⟨recovered, s₂, hw, h⟩ := bind_ok.mp h
    obtain ⟨-, rfl⟩ := require_ok.mp h
    obtain ⟨-, hne, hl⟩ := withdrawFromStrategy_honest htoken hw
    exact ⟨hl.store_eq, hl.active (by simp [Store.activeAddress, hi]) hne⟩
  · obtain ⟨-, rfl⟩ := pure_ok.mp h
    exact ⟨rfl, rfl, by omega⟩

/-- An honest strategy gives back all it reports. -/
theorem withdrawDeployed_honest {a : Address} {r : Int × Int} (htoken : s.store.token ≠ none)
    (h : withdrawDeployed (honest self) a s = .ok (r, t)) :
    a ≠ self ∧ r = ((s.world.claimOn a : Int), (s.world.claimOn a : Int)) ∧
      Lent self a (-s.world.claimOn a) s t := by
  obtain ⟨deployed, _, hb, h⟩ := bind_ok.mp h
  obtain ⟨hne, rfl, rfl⟩ := strategyBalance_honest hb
  rcases ite_ok.mp h with ⟨-, h⟩ | ⟨hz, h⟩
  · obtain ⟨moved, _, hw, h⟩ := bind_ok.mp h
    obtain ⟨rfl, rfl⟩ := pure_ok.mp h
    obtain ⟨rfl, -, hl⟩ := withdrawFromStrategy_honest htoken hw
    exact ⟨hne, rfl, hl⟩
  · obtain ⟨rfl, rfl⟩ := pure_ok.mp h
    have h0 : (s.world.claimOn a : Int) = 0 := by omega
    rw [h0]
    exact ⟨hne, rfl, Lent.refl self a s⟩

theorem redeploy_honest {b : Address} {moved : Int} (hm : 0 ≤ moved)
    (h : redeploy (honest self) b moved s = .ok (u, t)) :
    Lent self b moved s t ∧ (moved = 0 ∨ b ≠ self) := by
  rcases ite_ok.mp h with ⟨-, h⟩ | ⟨hz, h⟩
  · obtain ⟨hne, hl⟩ := deployToStrategy_honest h
    exact ⟨hl, .inr hne⟩
  · obtain ⟨-, rfl⟩ := pure_ok.mp h
    obtain rfl : moved = 0 := by omega
    exact ⟨Lent.refl self b s, .inl rfl⟩

theorem priceBatch_honest {amounts : List Int} {total : Int} {r : List Int × Int}
    (h : priceBatch (honest self) amounts total s = .ok (r, t)) :
    s = t ∧ ∀ p ∈ amounts.zip r.1, 0 < p.1 ∧ p.2 ≠ 0 ∧ s.Mints self p.1 p.2 := by
  induction amounts generalizing total r with
  | nil =>
    obtain ⟨rfl, rfl⟩ := pure_ok.mp h
    simp
  | cons amount rest ih =>
    obtain ⟨shares, s₁, r', hps, -, hne, hc, hrs, rfl⟩ := priceBatch_cons_ok.mp h
    obtain ⟨rfl, -, hm⟩ := convertToShares_honest hc
    obtain ⟨rfl, hr⟩ := ih hrs
    refine ⟨rfl, ?_⟩
    intro p hp
    rcases mem_cons.mp hp with rfl | hp
    · exact ⟨hps, hne, hm⟩
    · exact hr p hp

theorem mintBatch_honest {items : List (Address × Int × Int)} {total total' : Int}
    (hs : ∀ i ∈ items, i.1 ≠ self)
    (h : mintBatch (honest self) ctx items total s = .ok (total', t)) :
    t.world.claims = s.world.claims ∧
      t.idle self = s.idle self + (items.map (fun i => i.2.1)).sum := by
  induction items generalizing total s with
  | nil =>
    obtain ⟨rfl, rfl⟩ := pure_ok.mp h
    simp
  | cons item rest ih =>
    obtain ⟨source, amount, shares⟩ := item
    obtain ⟨s₁, log', -, -, hin, hr⟩ := mintBatch_cons_ok h
    obtain ⟨hst, hcl, hid⟩ := transferIn_honest (hs _ mem_cons_self) hin
    obtain ⟨hcl', hi'⟩ := ih (fun i hi => hs i (mem_cons_of_mem _ hi)) hr
    refine ⟨hcl'.trans hcl, ?_⟩
    have hm : Sys.idle self ⟨s.store.setShares source ctx.now
        ((s.store.positionOf source ctx.now).shares + shares), log', s₁.world⟩ = s₁.idle self := by
      simp only [Sys.idle, hst]
      rfl
    simp only [map_cons, sum_cons]
    omega

/-! ### The effects -/

/-- Everything the money and the shares depend on is the same. -/
structure SameBooks (a b : Store) : Prop where
  token : b.token = a.token
  active : b.activeAddress = a.activeAddress
  totalShares : b.totalShares = a.totalShares
  deployedBalance : b.deployedBalance = a.deployedBalance
  feesAccrued : b.feesAccrued = a.feesAccrued
  reserved : b.reservedWithdrawAssets = a.reservedWithdrawAssets
  positions : b.positions = a.positions
  withdrawRequests : b.withdrawRequests = a.withdrawRequests

/-- What a call pays in, and from whom. -/
def Op.paidIn : Op → List (Address × Int)
  | .deposit source amount => [(source, amount)]
  | .batchDeposit sources amounts => sources.zip amounts
  | _ => []

def Op.isDeposit : Op → Bool
  | .deposit _ _ | .batchDeposit _ _ => true
  | _ => false

/-- What depositors and the treasury do. -/
inductive Trade (self : Address) (ctx : Ctx) (op : Op) (s t : Sys World) : Prop
  /-- Deposits `(depositor, amount, shares)`, all priced before any of them. -/
  | mint (items : List (Address × Int × Int))
      (hitems : ∀ i ∈ items, 0 < i.2.1 ∧ i.2.2 ≠ 0 ∧ s.Mints self i.2.1 i.2.2)
      (hstore : t.store = { s.store with
        positions := mintAll ctx.now (items.map (fun i => (i.1, i.2.2))) s.store.positions
        totalShares := s.store.totalShares + (items.map (fun i => i.2.2)).sum })
      (hgross : t.gross self = s.gross self + (items.map (fun i => i.2.1)).sum)
      (hclaimed : t.claimed - s.claimed = t.live self - s.live self)
      (htoken : s.store.token ≠ none) (hop : op.isDeposit = true)
      (hpaid : items.map (fun i => (i.1, i.2.1)) = op.paidIn)
  | request (owner : Address) (shares assets : Int) (position : Position) (hself : owner ≠ self)
      (hposition : s.store.positions.get owner = some position)
      (hshares : 0 < shares ∧ shares ≤ position.shares) (hassets : assets ≠ 0)
      (hredeems : s.Redeems self shares assets)
      (hfits : FitsI128 (s.store.reservedWithdrawAssets + assets))
      (hstore : t.store = { s.store with
        nextWithdrawId := s.store.nextWithdrawId + 1
        positions := writeShares s.store.positions owner ctx.now (position.shares - shares)
        totalShares := s.store.totalShares - shares
        reservedWithdrawAssets := s.store.reservedWithdrawAssets + assets
        withdrawRequests := s.store.withdrawRequests.set (s.store.nextWithdrawId + 1)
          ⟨s.store.nextWithdrawId + 1, owner, shares, assets,
            ctx.now + s.store.withdrawCooldown, ctx.now, none, none⟩ })
      (hworld : t.world = s.world) (hop : op = .requestWithdraw owner shares)
  | claim (id : Nat) (r : WithdrawRequest) (hget : s.store.withdrawRequests.get id = some r)
      (hpending : r.pending = true)
      (hstore : t.store = s.store.resolve r.assets { r with claimedAt := some ctx.now })
      (hgross : t.gross self = s.gross self - r.assets)
      (hclaimed : t.claimed - s.claimed = t.live self - s.live self)
      (hop : op = .claimWithdraw r.owner id)
  | cancel (id : Nat) (r : WithdrawRequest) (shares : Int)
      (hget : s.store.withdrawRequests.get id = some r) (hpending : r.pending = true)
      (hshares : shares ≠ 0) (hmints : s.Mints self r.assets shares)
      (hstore : t.store = { s.store.resolve r.assets { r with cancelledAt := some ctx.now } with
        positions := writeShares s.store.positions r.owner ctx.now
          ((positionOf s.store.positions r.owner ctx.now).shares + shares)
        totalShares := s.store.totalShares + shares })
      (hworld : t.world = s.world) (hop : op = .cancelWithdraw r.owner id)
  | sweep (treasury : Address) (hfees : 0 < s.store.feesAccrued)
      (hstore : t.store = s.store.setFees 0)
      (hgross : t.gross self =
        if treasury = self then s.gross self else s.gross self - s.store.feesAccrued)
      (hclaims : t.world.claims = s.world.claims)

inductive Effect (self : Address) (ctx : Ctx) (op : Op) (s t : Sys World) : Prop
  | trade (h : Trade self ctx op s t)
  /-- Configuration or the registry changed. -/
  | config (hbooks : SameBooks s.store t.store) (hworld : t.world = s.world)
  | seeded (admin treasury token : Address) (hadmin : s.store.admin = none)
      (hstore : t.store = s.store.seeded admin treasury token) (hworld : t.world = s.world)
  | harvest (caller : Address) (hop : op = .harvest caller)
      (hstore : t.store = s.store.harvested ctx.now (s.live self)) (hworld : t.world = s.world)
  /-- Another strategy became active, holding what the old one held. -/
  | retarget (id : Nat) (hstore : t.store = s.store.setActive (some id))
      (hidle : t.idle self = s.idle self) (hlive : s.live self ≤ t.live self)
      (hclaimed : t.claimed = s.claimed) (htoken : s.store.token ≠ none)
  /-- The circuit breaker. -/
  | recalled (hstore : t.store = s.store.setActive none)
      (hidle : t.idle self = s.idle self + s.live self)
      (hclaimed : t.claimed = s.claimed - s.live self) (htoken : s.store.token ≠ none)

theorem Sys.claimed_congr (hc : t.world.claims = s.world.claims) : t.claimed = s.claimed := by
  simp only [Sys.claimed, hc]

theorem Sys.live_congr (self : Address) (hactive : t.store.activeAddress = s.store.activeAddress)
    (hc : t.world.claims = s.world.claims) : t.live self = s.live self ∧ t.claimed = s.claimed := by
  simp only [Sys.live, World.liveOn, World.claimOn, hactive, hc, Sys.claimed_congr hc, and_self]

theorem Sys.idle_congr (htoken : t.store.token = s.store.token)
    (hi : t.world.tokens self = s.world.tokens self) : t.idle self = s.idle self := by
  simp only [Sys.idle, htoken, hi]

section

variable (htoken : t.store.token = s.store.token)
  (hactive : t.store.activeAddress = s.store.activeAddress) (hworld : t.world = s.world)

include htoken hactive hworld

theorem Sys.holdings_congr (self : Address) :
    t.idle self = s.idle self ∧ t.live self = s.live self ∧ t.claimed = s.claimed :=
  ⟨Sys.idle_congr htoken (by rw [hworld]), Sys.live_congr self hactive (by rw [hworld])⟩

theorem Sys.gross_congr : t.gross self = s.gross self := by
  obtain ⟨hi, hl, -⟩ := Sys.holdings_congr htoken hactive hworld self
  rw [Sys.gross, Sys.gross, hi, hl]

/-- Without a transfer the shares lose exactly what the adapter comes to owe. -/
theorem Sys.net_of_liabilities {owed : Int}
    (hl : t.store.liabilities = s.store.liabilities + owed) :
    t.net self = s.net self - owed := by
  rw [Sys.net, Sys.net, Sys.gross_congr htoken hactive hworld, hl]
  omega

end

theorem deposit_trade {source : Address} {amount shares : Int}
    (h : deposit (honest self) ctx source amount s = .ok (shares, t)) :
    Trade self ctx (.deposit source amount) s t := by
  have htoken := deposit_token h
  obtain ⟨⟨-, hs⟩, -, ha, hne, -, -, _, _, s₃, s₄, deployed, hc, hcp, -, hin, hf,
    ht⟩ := deposit_ok.mp h
  obtain ⟨rfl, -, hm⟩ := convertToShares_honest hc
  obtain rfl := cappedBalance_honest hcp
  obtain ⟨hst₃, hcl, hi⟩ := transferIn_honest (show source ≠ self from hs) hin
  rw [← hst₃] at hf
  obtain ⟨hst₄, hi₄, hl₄, hcl₄, -⟩ := forward_honest hf
  obtain ⟨hlive₃, hcl₃⟩ := Sys.live_congr (s := s) self (by rw [hst₃]) hcl
  obtain ⟨hi', hl, hcl'⟩ := Sys.holdings_congr (s := s₄) (t := t)
    (by rw [ht, hst₄, hst₃]; rfl) (by rw [ht, hst₄, hst₃]; rfl) (by rw [ht]) self
  refine .mint [(source, amount, shares)] (by simp [ha, hne, hm]) ?_ ?_ (by omega)
    htoken rfl rfl
  · simp [ht, mintAll, Store.setTotalShares, Store.setShares, Store.positionOf]
  · simp only [Sys.gross, map_cons, map_nil, sum_cons, sum_nil]
    omega

theorem batchDeposit_trade {sources : List Address} {amounts shares : List Int}
    (h : batchDeposit (honest self) ctx sources amounts s = .ok (shares, t)) :
    Trade self ctx (.batchDeposit sources amounts) s t := by
  obtain ⟨htoken, hln', hst⟩ := batchDeposit_writes h
  obtain ⟨-, -, -, hln, hs, _, _, s₃, s₄, deployed, total, newTotal, hcp, hp, -, hm, hf,
    ht⟩ := batchDeposit_ok.mp h
  obtain rfl := cappedBalance_honest hcp
  obtain ⟨rfl, hmn⟩ := priceBatch_honest hp
  have hsr : ∀ i ∈ sources.zip (amounts.zip shares), i.1 ≠ self := by
    intro i hi
    exact (hs i.1 (of_mem_zip hi).1).2
  obtain ⟨hcl, hid⟩ := mintBatch_honest hsr hm
  obtain ⟨hst₃, -⟩ := mintBatch_store hm
  have hactive : s₃.store.activeInfo = s.store.activeInfo := by
    rw [hst₃]
    rfl
  rw [← hactive] at hf
  obtain ⟨hst₄, hi₄, hl₄, hcl₄, -⟩ := forward_honest hf
  have hpd : (sources.zip (amounts.zip shares)).map (fun i => (i.1, i.2.1)) =
      sources.zip amounts :=
    zip_map_right.symm.trans (congrArg sources.zip (map_fst_zip (by omega)))
  obtain ⟨hlive₃, hcl₃⟩ := Sys.live_congr (s := s) self (by rw [hst₃]; rfl) hcl
  obtain ⟨hi', hl, hcl'⟩ := Sys.holdings_congr (s := s₄) (t := t)
    (by rw [hst, hst₄, hst₃]) (by rw [hst, hst₄, hst₃]; rfl) (by rw [ht]) self
  refine .mint (sources.zip (amounts.zip shares)) ?_ hst ?_ (by omega)
    htoken rfl hpd
  · intro i hi
    exact hmn i.2 (of_mem_zip hi).2
  · simp only [Sys.gross]
    omega

theorem claimWithdraw_trade {owner : Address} {requestId : Nat} (hwf : WellFormed s.store)
    (h : claimWithdraw (honest self) ctx owner requestId s = .ok (assets, t)) :
    Trade self ctx (.claimWithdraw owner requestId) s t := by
  obtain ⟨hs, r, s₁, s₂, hgt, rfl, hp, -, -, hst, hc, ho, hw⟩ := claimWithdraw_ok h
  have htoken : (State.mk t.store s.log s.world).store.token ≠ none := by
    rw [hst]
    exact (hwf.setup.of_request hgt).2
  obtain ⟨hst₁, hg, hcm⟩ := coverShortfall_honest htoken hc
  obtain ⟨hst₂, hcl, -, hi⟩ := transferOut_honest ho
  have hne : r.owner ≠ self := hs
  rw [if_neg hne] at hi
  have hactive : t.store.activeAddress = s.store.activeAddress := by
    rw [hst]
    rfl
  obtain ⟨hidle₀, hlive₀, hclaimed₀⟩ := Sys.holdings_congr (s := s) (t := ⟨t.store, s.log, s.world⟩)
    (by rw [hst]; rfl) hactive rfl self
  obtain ⟨hlive₂, hclaimed₂⟩ := Sys.live_congr (s := s₁) self (by rw [hst₂]) hcl
  obtain ⟨hi', hl, hcl'⟩ := Sys.holdings_congr (s := s₂) (t := t)
    (by rw [hst₂, hst₁]) (by rw [hst₂, hst₁]) (by rw [hw]) self
  refine .claim requestId r hgt hp hst ?_ (by omega) rfl
  simp only [Sys.gross] at hg ⊢
  omega

theorem requestWithdraw_trade {owner : Address} {shares : Int} {id : Nat}
    (h : requestWithdraw (honest self) ctx owner shares s = .ok (id, t)) :
    Trade self ctx (.requestWithdraw owner shares) s t := by
  obtain ⟨⟨-, hs⟩, -, hsh, -, -, rfl, position, assets, _, hp, hle, -, -, hc, hne, hf,
    rfl⟩ := requestWithdraw_ok.mp h
  obtain ⟨rfl, hr⟩ := convertToAssets_honest hc
  exact .request owner shares assets position hs hp ⟨hsh, hle⟩ hne hr hf rfl rfl
    rfl

theorem cancelWithdraw_trade {owner : Address} {requestId : Nat}
    (h : cancelWithdraw (honest self) ctx owner requestId s = .ok (u, t)) :
    Trade self ctx (.cancelWithdraw owner requestId) s t := by
  obtain ⟨-, r, shares, _, hg, rfl, hp, hc, hne, -, -, -, rfl⟩ := cancelWithdraw_ok.mp h
  obtain ⟨rfl, -, hm⟩ := convertToShares_honest hc
  exact .cancel requestId r shares hg hp hne hm rfl rfl rfl

variable {caller : Address}

theorem harvest_honest {delta : Int} (h : harvest (honest self) ctx caller s = .ok (delta, t)) :
    t.store = s.store.harvested ctx.now (s.live self) ∧ t.world = s.world := by
  obtain ⟨info, s₁, live, hi, hl, -, hst, hw⟩ := harvest_ok h
  obtain ⟨hne, rfl, rfl⟩ := strategyBalance_honest hl
  refine ⟨?_, hw⟩
  rw [hst, Sys.live_of_active (by simp [Store.activeAddress, hi]) hne]

theorem withdrawFees_trade {accrued : Int}
    (h : withdrawFees (honest self) ctx caller s = .ok (accrued, t)) :
    Trade self ctx (.withdrawFees caller) s t := by
  obtain ⟨hp, rfl, treasury, s₁, -, hst, ho, hw⟩ := withdrawFees_ok h
  obtain ⟨hst₁, hcl, -, hi⟩ := transferOut_honest ho
  have hc : t.world.claims = s.world.claims := by rw [hw, hcl]
  obtain ⟨hl, -⟩ := Sys.live_congr self (by rw [hst]; rfl) hc
  have hidle₀ : Sys.idle self ⟨s.store.setFees 0, s.log, s.world⟩ = s.idle self :=
    Sys.idle_congr rfl rfl
  have hi' : t.idle self = s₁.idle self := Sys.idle_congr (by rw [hst, hst₁]) (by rw [hw])
  refine .sweep treasury hp hst ?_ hc
  simp only [Sys.gross]
  split_ifs at hi ⊢ <;> omega

/-- Writing a strategy record that is not active, or that keeps its address. -/
theorem saveStrategy_sameBooks {st : Store} (info : StrategyInfo) {next : Nat}
    (h : st.activeStrategy ≠ some info.id ∨
      ∃ old, st.strategies.get info.id = some old ∧ old.address = info.address) :
    SameBooks st { st with
      nextStrategyId := next, strategies := st.strategies.set info.id info } := by
  refine ⟨rfl, ?_, rfl, rfl, rfl, rfl, rfl, rfl⟩
  simp only [Store.activeAddress, Store.activeInfo]
  cases hid : st.activeStrategy with
  | none => rfl
  | some id =>
    simp only [Option.bind_some, SortedMap.get_set]
    split_ifs with hk
    · rcases h with h | ⟨old, hold, ha⟩
      · exact absurd (hk ▸ hid) h
      · simp [hk, hold, ha]
    · rfl

section

variable (hwf : WellFormed s.store)

include hwf

theorem registerStrategy_effect {address : Address} {name : String} {id : Nat}
    (h : registerStrategy (honest self) ctx caller address name s = .ok (id, t)) :
    Effect self ctx op s t := by
  obtain ⟨-, -, rfl, hst, hw⟩ := registerStrategy_ok h
  refine .config (hst ▸ saveStrategy_sameBooks ⟨_, address, name, 0, ctx.now, none⟩ (.inl ?_)) hw
  intro ha
  cases hg : s.store.strategies.get (s.store.nextStrategyId + 1) with
  | none => exact hwf.registry.active_known _ ha hg
  | some info =>
    have := (hwf.registry.id_eq _ info hg).2
    omega

theorem setActiveStrategy_effect {strategyId : Nat}
    (h : setActiveStrategy (honest self) ctx caller strategyId s = .ok (u, t)) :
    Effect self ctx op s t := by
  simp only [setActiveStrategy, getStrategy, entry_rules] at h
  obtain ⟨-, -, -, hn, info, hg, -, rfl⟩ := h
  have hl : s.live self = 0 := by
    simp [Sys.live, World.liveOn, Store.activeAddress, Store.activeInfo, hn]
  refine .retarget strategyId rfl (Sys.idle_congr rfl rfl) ?_ (Sys.claimed_congr rfl)
    (hwf.setup.of_strategy hg).2
  rw [hl]
  exact Sys.live_nonneg self _

theorem migrateStrategy_effect {newStrategyId : Nat}
    (h : migrateStrategy (honest self) ctx caller newStrategyId s = .ok (u, t)) :
    Effect self ctx op s t := by
  obtain ⟨oldId, oldInfo, newInfo, s₁, s₂, deployed, moved, hold, -, hoi, hni, -, hwd, hre, hst,
    hw⟩ := migrateStrategy_ok h
  obtain ⟨-, htoken⟩ := hwf.setup.of_strategy hoi
  obtain ⟨hne, hr, hl₁⟩ := withdrawDeployed_honest htoken hwd
  obtain ⟨rfl, rfl⟩ := Prod.mk.inj hr
  obtain ⟨hl₂, hb⟩ := redeploy_honest (Int.natCast_nonneg _) hre
  have hs : t.store = s.store.setActive (some newStrategyId) := by
    rw [hst]
    simp [Store.setActive, hwf.limits.deployed_nonneg]
  have hactive : t.store.activeAddress = some newInfo.address := by
    rw [hs]
    simp [Store.activeAddress, Store.activeInfo, Store.setActive, hni]
  have hl : s.live self = s.world.claimOn oldInfo.address :=
    Sys.live_of_active (by simp [Store.activeAddress, Store.activeInfo, hold, hoi]) hne
  have hi : t.idle self = s₂.idle self :=
    Sys.idle_congr (by rw [hs, hl₂.store_eq, hl₁.store_eq]; rfl) (by rw [hw])
  have hcl : t.claimed = s₂.claimed := Sys.claimed_congr (by rw [hw])
  have hi₁ := hl₁.idle_eq
  have hi₂ := hl₂.idle_eq
  have hc₁ := hl₁.claimed_eq
  have hc₂ := hl₂.claimed_eq
  refine .retarget newStrategyId hs (by omega) ?_ (by omega) htoken
  rcases hb with hz | hb
  · rw [hl, hz]
    exact t.live_nonneg self
  · rw [Sys.live_of_active hactive hb, hw, hl]
    have hc := hl₂.claim_eq
    omega

theorem emergencyWithdrawAll_effect {recovered : Int}
    (h : emergencyWithdrawAll (honest self) ctx caller s = .ok (recovered, t)) :
    Effect self ctx op s t := by
  obtain ⟨id, info, s₁, deployed, hid, hin, hwd, hst, hw⟩ := emergencyWithdrawAll_ok h
  obtain ⟨-, htoken⟩ := hwf.setup.of_strategy hin
  obtain ⟨hne, -, hl⟩ := withdrawDeployed_honest htoken hwd
  have hlv : s.live self = s.world.claimOn info.address :=
    Sys.live_of_active (by simp [Store.activeAddress, Store.activeInfo, hid, hin]) hne
  have hil : t.idle self = s₁.idle self :=
    Sys.idle_congr (by rw [hst, hl.store_eq]; rfl) (by rw [hw])
  have hcl : t.claimed = s₁.claimed := Sys.claimed_congr (by rw [hw])
  have hi := hl.idle_eq
  have hc := hl.claimed_eq
  exact .recalled hst (by omega) (by omega) htoken

/-- Every successful call in the honest world has one of these effects. -/
theorem exec_effect (h : exec (honest self) ctx op s = .ok ((), t)) : Effect self ctx op s t := by
  cases op with
  | initializeAdapter admin treasury token =>
    obtain ⟨ha, hst, hw⟩ := initializeAdapter_ok h
    exact .seeded admin treasury token ha hst hw
  | setAdmin newAdmin =>
    simp only [exec, setAdmin, entry_rules] at h
    obtain ⟨_, -, -, rfl⟩ := h
    exact .config ⟨rfl, rfl, rfl, rfl, rfl, rfl, rfl, rfl⟩ rfl
  | setTreasury | setHarvestInterval | setPaused =>
    simp only [exec, setTreasury, setHarvestInterval, setPaused, entry_rules] at h
    obtain ⟨-, -, rfl⟩ := h
    exact .config ⟨rfl, rfl, rfl, rfl, rfl, rfl, rfl, rfl⟩ rfl
  | setPerformanceFeeBps caller bps =>
    simp only [exec, setPerformanceFeeBps, validateFeeBps, entry_rules] at h
    obtain ⟨-, -, -, rfl⟩ := h
    exact .config ⟨rfl, rfl, rfl, rfl, rfl, rfl, rfl, rfl⟩ rfl
  | setWithdrawCooldown caller seconds => exact absurd h (by simp [exec, setWithdrawCooldown])
  | upgrade caller newWasmHash =>
    simp only [exec, upgrade, entry_rules] at h
    obtain ⟨-, -, _, hw, rfl⟩ := h
    exact .config ⟨rfl, rfl, rfl, rfl, rfl, rfl, rfl, rfl⟩ (Option.some.inj hw).symm
  | registerStrategy caller address name =>
    obtain ⟨id, h⟩ := of_void h
    exact registerStrategy_effect hwf h
  | deregisterStrategy caller strategyId =>
    simp only [exec, deregisterStrategy, getStrategy, entry_rules] at h
    obtain ⟨-, -, -, hne, info, hg, -, rfl⟩ := h
    obtain rfl := (hwf.registry.id_eq _ info hg).1
    exact .config (saveStrategy_sameBooks _ (.inl hne)) rfl
  | setActiveStrategy caller strategyId => exact setActiveStrategy_effect hwf h
  | migrateStrategy caller newStrategyId => exact migrateStrategy_effect hwf h
  | setStrategyDepositCap caller strategyId cap =>
    simp only [exec, setStrategyDepositCap, getStrategy, entry_rules] at h
    obtain ⟨-, -, -, -, info, hg, rfl⟩ := h
    obtain rfl := (hwf.registry.id_eq _ info hg).1
    exact .config (saveStrategy_sameBooks _ (.inr ⟨info, hg, rfl⟩)) rfl
  | deposit source amount =>
    obtain ⟨shares, h⟩ := of_void h
    exact .trade (deposit_trade h)
  | batchDeposit sources amounts =>
    obtain ⟨shares, h⟩ := of_void h
    exact .trade (batchDeposit_trade h)
  | requestWithdraw owner shares =>
    obtain ⟨id, h⟩ := of_void h
    exact .trade (requestWithdraw_trade h)
  | claimWithdraw owner requestId =>
    obtain ⟨assets, h⟩ := of_void h
    exact .trade (claimWithdraw_trade hwf h)
  | cancelWithdraw owner requestId => exact .trade (cancelWithdraw_trade h)
  | harvest caller =>
    obtain ⟨delta, h⟩ := of_void h
    obtain ⟨hst, hw⟩ := harvest_honest h
    exact .harvest caller rfl hst hw
  | withdrawFees caller =>
    obtain ⟨accrued, h⟩ := of_void h
    exact .trade (withdrawFees_trade h)
  | emergencyWithdrawAll caller =>
    obtain ⟨recovered, h⟩ := of_void h
    exact emergencyWithdrawAll_effect hwf h

end

/-! ### What the world does by itself -/

def Sys.after (self : Address) (s : Sys World) (e : Outside) : Sys World :=
  { s with world := outside self e s.world }

/-- A strategy's gain or loss reaches the adapter's claims, and its live balance if active. -/
theorem gain_effect (self : Address) (s : Sys World) (strategy : Address) (delta : Int) :
    let t := s.after self (.gain strategy delta)
    ∃ inc, t.claimed = s.claimed + inc ∧ t.idle self = s.idle self ∧
      (t.live self = s.live self + inc ∨ t.live self = s.live self) ∧ inc ≤ max delta 0 ∧
      (0 ≤ delta → inc = delta) ∧ (delta ≤ 0 → inc ≤ 0) := by
  intro t
  have hc : t.claimed = s.claimed - s.world.claimOn strategy +
      (((s.world.claimOn strategy : Int) + delta).toNat : Nat) := claims_sum_set _ _ _
  refine ⟨(((s.world.claimOn strategy : Int) + delta).toNat : Nat) - s.world.claimOn strategy,
    by omega, rfl, ?_, by omega, by omega, by omega⟩
  have hl : t.live self = World.liveOn ⟨s.world.tokens, s.world.claims.set strategy
      ((s.world.claimOn strategy : Int) + delta).toNat⟩ self s.store.activeAddress := rfl
  rw [hl]
  unfold Sys.live
  cases s.store.activeAddress with
  | none => exact .inr rfl
  | some a =>
    simp only [World.liveOn, Option.elim, claimOn_set]
    by_cases ha : a = self
    · simp [ha]
    · by_cases hs : a = strategy
      · subst hs
        simp only [ha, ↓reduceIte]
        left
        omega
      · simp [ha, hs]

theorem donate_effect (self : Address) (s : Sys World) (amount : Nat) :
    let t := s.after self (.donate amount)
    t.claimed = s.claimed ∧ t.live self = s.live self ∧
      t.idle self = if s.store.token = none then 0 else s.idle self + amount := by
  refine ⟨rfl, rfl, ?_⟩
  simp only [Sys.idle, Sys.after, outside, Ledger.set_self]
  split_ifs <;> simp

theorem wallet_effect (self : Address) (s : Sys World) (holder : Address) (balance : Nat) :
    let t := s.after self (.wallet holder balance)
    t.claimed = s.claimed ∧ t.live self = s.live self ∧ t.idle self = s.idle self := by
  by_cases h : holder = self
  · have : outside self (.wallet holder balance) s.world = s.world := by simp [outside, h]
    simp [Sys.after, this]
  · refine ⟨?_, ?_, ?_⟩
    · simp [Sys.claimed, Sys.after, outside, h]
    · simp [Sys.live, Sys.after, outside, h, World.liveOn, World.claimOn]
    · simp [Sys.idle, Sys.after, outside, h, Ledger.set_other _ _ (Ne.symm h)]

end Stow.Adapter
