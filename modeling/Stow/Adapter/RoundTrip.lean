import Stow.Adapter.DepositExact
import Stow.Adapter.Dilution

/-! What rounding costs a depositor: withdrawing right after a deposit, and depositing in parts. -/
namespace Stow.Adapter

open Stow.Lib Stow.Lib.Contract

/-- Deposits by anyone and at any times, in order, and the shares that they mint in total. -/
def depositEach {W : Type} (H : Host W) : List (Ctx × Address × Int) → Action W Int
  | [] => pure 0
  | (ctx, source, amount) :: rest => do
    let shares ← deposit H ctx source amount
    let more ← depositEach H rest
    pure (shares + more)

/-- The loss is not negative, and below the price of one share and one unit. -/
def SmallLoss (assets supply amount back : Int) : Prop :=
  back ≤ amount ∧ (amount - back : ℚ) < assets / supply + 1

variable {self : Address} {ctx : Ctx} {s t : Sys World} {source : Address} {amount shares : Int}

/-- A deposit into a pool with shares: what it adds, and how it is rounded. -/
structure Priced (adapter : Address) (amount shares : Int) (s t : Sys World) : Prop where
  amount_pos : 0 < amount
  pool_pos : 0 < s.pool adapter
  supply : t.store.totalShares = s.store.totalShares + shares
  pool : t.pool adapter = s.pool adapter + amount
  fair : shares * s.pool adapter ≤ amount * s.store.totalShares
  floor : amount * s.store.totalShares < (shares + 1) * s.pool adapter

theorem deposit_priced (hs : 0 < s.store.totalShares)
    (h : deposit (honest self) ctx source amount s = .ok (shares, t)) :
    Priced self amount shares s t := by
  have hd := deposited h
  obtain ⟨-, -, hps, ⟨-, hq⟩, -⟩ := deposit_iff.mp h
  obtain ⟨-, -, -, -, hn, -, rfl⟩ := hq.resolve_left fun hz => hs.ne' hz.1
  have hp : s.pool self = s.net self := max_eq_left hn.le
  have hn' : t.net self = s.net self + amount := by
    rw [Sys.net, hd.gross, hd.store, Sys.net]
    exact add_sub_right_comm _ _ _
  rw [show s.gross self - s.store.liabilities = s.pool self from hp.symm] at hn hd ⊢
  refine ⟨hps, hn, by rw [hd.store], ?_, ?_, ?_⟩
  · rw [Sys.pool, hn', hp]
    exact max_eq_left (by omega)
  · exact tdiv_nonneg_mul_le (mul_nonneg hps.le hs.le) hn
  · exact lt_tdiv_add_one_mul (mul_nonneg hps.le hs.le) hn

theorem Priced.shares_nonneg (h : Priced self amount shares s t) (hs : 0 < s.store.totalShares) :
    0 ≤ shares := by
  have hlt : 0 < (shares + 1) * s.pool self := (mul_pos h.amount_pos hs).trans h.floor
  have := (mul_pos_iff_of_pos_right h.pool_pos).mp hlt
  omega

/-- What the new shares redeem. -/
theorem Priced.redeems {back : Int} (h : Priced self amount shares s t)
    (hs : 0 < s.store.totalShares) (hb : t.Redeems self shares back) :
    SmallLoss (s.pool self) (s.store.totalShares + shares) amount back := by
  have hsh := h.shares_nonneg hs
  have hsp : 0 < s.store.totalShares + shares := by omega
  have ha := h.amount_pos
  have hp := h.pool_pos
  have hnn : 0 ≤ shares * (s.pool self + amount) := mul_nonneg hsh (by omega)
  obtain ⟨-, rfl⟩ := hb.resolve_left fun hz => by
    have := h.supply
    omega
  rw [h.pool, h.supply]
  obtain ⟨hle, hl⟩ := SharePool.round_trip hsp h.fair h.floor
    (tdiv_nonneg_mul_le hnn hsp) (lt_tdiv_add_one_mul hnn hsp)
  refine ⟨hle, ?_⟩
  rw [← sub_lt_iff_lt_add, lt_div_iff₀ (by exact_mod_cast hsp)]
  exact_mod_cast hl

/-- All of them together mint at most the fair number of shares. -/
theorem depositEach_fair {deposits : List (Ctx × Address × Int)} {minted : Int}
    (hs : 0 < s.store.totalShares) (hpl : 0 < s.pool self)
    (h : depositEach (honest self) deposits s = .ok (minted, t)) :
    0 ≤ (deposits.map (·.2.2)).sum ∧
      minted * s.pool self ≤ (deposits.map (·.2.2)).sum * s.store.totalShares := by
  induction deposits generalizing s minted with
  | nil =>
    obtain ⟨rfl, -⟩ := Call.pure_ok.mp h
    simp
  | cons d rest ih =>
    simp only [depositEach, Call.bind_ok, Call.pure_ok] at h
    obtain ⟨shares, s₁, hfr, more, _, hm, rfl, rfl⟩ := h
    have hp := deposit_priced hs hfr
    have ha := hp.amount_pos
    have hsh := hp.shares_nonneg hs
    obtain ⟨hr, hf⟩ := ih (by rw [hp.supply]; omega) (by rw [hp.pool]; omega) hm
    rw [hp.pool, hp.supply] at hf
    rw [List.map_cons, List.sum_cons]
    exact ⟨add_nonneg ha.le hr, SharePool.mint_twice hpl ha.le hr hp.fair hf⟩

/-- For every state with shares and every deposit: the price of the shares right after, and what a
request for them fixes, is at most the amount and less than it by less than the price of one share
and one unit. Deposits that add up to the amount mint at most as many shares. -/
theorem round_trip_bounded (self : Address) (s t s₁ : Sys World) (ctx : Ctx) (source : Address)
    (amount shares assets : Int) (hs : 0 < s.store.totalShares)
    (hassets : totalAssets (honest self) s = .ok (assets, s₁))
    (h : deposit (honest self) ctx source amount s = .ok (shares, t)) :
    let supply := s.store.totalShares + shares
    (∀ back t₁, convertToAssets (honest self) shares t = .ok (back, t₁) →
      SmallLoss assets supply amount back) ∧
    (∀ ctx' owner id t₁, requestWithdraw (honest self) ctx' owner shares t = .ok (id, t₁) →
      ∃ request, t₁.store.withdrawRequests.get id = some request ∧ request.shares = shares ∧
        SmallLoss assets supply amount request.assets) ∧
    ∀ deposits minted t₁, (deposits.map (·.2.2)).sum = amount →
      depositEach (honest self) deposits s = .ok (minted, t₁) → minted ≤ shares := by
  obtain ⟨rfl, -⟩ := tryTotalAssets_honest hassets
  have hp := deposit_priced hs h
  refine ⟨?_, ?_, ?_⟩
  · intro back t₁ hb
    exact hp.redeems hs (convertToAssets_honest hb).2
  · intro ctx' owner id t₁ hr
    obtain ⟨-, -, -, -, -, -, _, back, _, -, -, -, -, hb, -, -, rfl⟩ :=
      requestWithdraw_ok.mp hr
    exact ⟨_, SortedMap.get_set_self _ _ _, rfl, hp.redeems hs (convertToAssets_honest hb).2⟩
  · rintro deposits minted t₁ rfl hm
    obtain ⟨-, hf⟩ := depositEach_fair hs hp.pool_pos hm
    have hlt := lt_of_mul_lt_mul_right (hf.trans_lt hp.floor) hp.pool_pos.le
    omega

/-- At a hundred shares worth 150, a deposit of 31 mints 20 shares, which are worth 30. -/
theorem round_trip_of_thirty_one :
    let s := run (honest 0) (outside 0) genesis pricedRun
    let t := (deposit (honest 0) ⟨0, [4]⟩ 4 31).after s
    (convertToAssets (honest 0) 20 t).toOption.map Prod.fst = some 30 ∧
      SmallLoss 150 120 31 30 := by
  intro s t
  have hb : (convertToAssets (honest 0) 20 t).toOption.map Prod.fst = some 30 := by
    decide +kernel
  exact ⟨hb, (round_trip_bounded 0 s t s ⟨0, [4]⟩ 4 31 20 150 (by decide) rfl
    (Call.ok_of_result (by decide +kernel))).1 30 _ (Call.ok_of_result hb)⟩

end Stow.Adapter
