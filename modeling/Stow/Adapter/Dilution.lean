import Stow.Lib.SharePool
import Stow.Adapter.Effects

/-! No depositor's operation lowers the price of a share. -/
namespace Stow.Adapter

open Stow.Lib Stow.Lib.Contract

variable {self : Address} {s t : Sys World} {ctx : Ctx} {op : Op}

/-- The operations of depositors and of the treasury. -/
def Op.isTrade : Op → Bool
  | .deposit _ _ | .batchDeposit _ _ | .requestWithdraw _ _ | .cancelWithdraw _ _
  | .claimWithdraw _ _ | .withdrawFees _ => true
  | _ => false

theorem exec_trade (hop : op.isTrade = true) (hwf : WellFormed s.store)
    (h : exec (honest self) ctx op s = .ok ((), t)) : Trade self ctx op s t := by
  cases op <;> simp only [Op.isTrade, Bool.false_eq_true] at hop
  case deposit source amount =>
    obtain ⟨shares, h⟩ := of_void h
    exact deposit_trade h
  case batchDeposit sources amounts =>
    obtain ⟨shares, h⟩ := of_void h
    exact batchDeposit_trade h
  case requestWithdraw owner shares =>
    obtain ⟨id, h⟩ := of_void h
    exact requestWithdraw_trade h
  case claimWithdraw owner requestId =>
    obtain ⟨assets, h⟩ := of_void h
    exact claimWithdraw_trade hwf h
  case cancelWithdraw owner requestId => exact cancelWithdraw_trade h
  case withdrawFees caller =>
    obtain ⟨accrued, h⟩ := of_void h
    exact withdrawFees_trade h

theorem Sys.Mints.fair {amount shares : Int} (h : s.Mints self amount shares)
    (hs : 0 < s.store.totalShares) (ha : 0 ≤ amount) :
    shares * s.pool self ≤ amount * s.store.totalShares := by
  rcases h with ⟨h₀, -⟩ | ⟨-, hp, rfl⟩
  · omega
  · exact tdiv_nonneg_mul_le (mul_nonneg ha hs.le) hp

theorem Sys.Redeems.fair {shares assets : Int} (h : s.Redeems self shares assets)
    (hs : 0 < s.store.totalShares) (hsh : 0 ≤ shares) :
    assets * s.store.totalShares ≤ shares * s.pool self := by
  rcases h with ⟨h₀, -⟩ | ⟨-, rfl⟩
  · omega
  · exact tdiv_nonneg_mul_le (mul_nonneg hsh s.pool_nonneg) hs

/-- All items of a batch together are minted fairly. -/
theorem mints_sum_fair {items : List (Address × Int × Int)}
    (h : ∀ i ∈ items, 0 < i.2.1 ∧ i.2.2 ≠ 0 ∧ s.Mints self i.2.1 i.2.2)
    (hs : 0 < s.store.totalShares) :
    (items.map (fun i => i.2.2)).sum * s.pool self ≤
      (items.map (fun i => i.2.1)).sum * s.store.totalShares := by
  induction items with
  | nil => simp
  | cons item rest ih =>
    obtain ⟨hp, -, hm⟩ := h item List.mem_cons_self
    have hr := ih (fun i hi => h i (List.mem_cons_of_mem _ hi))
    have hit := hm.fair hs hp.le
    simp only [List.map_cons, List.sum_cons, add_mul]
    omega

theorem Sys.net_le_pool (self : Address) (s : Sys World) : s.net self ≤ s.pool self :=
  le_max_left _ _

theorem Sys.pool_eq_net (h : 0 < s.pool self) : s.pool self = s.net self := by
  unfold Sys.pool at h ⊢
  omega

/-- Where something can be minted, the pool is not clamped. -/
theorem Sys.Mints.pool_pos {amount shares : Int} (h : s.Mints self amount shares)
    (hs : 0 < s.store.totalShares) : 0 < s.pool self := by
  rcases h with ⟨h₀, -⟩ | ⟨-, hp, -⟩
  · omega
  · exact hp

theorem Sys.Redeems.pool_pos {shares assets : Int} (h : s.Redeems self shares assets)
    (hs : 0 < s.store.totalShares) (hne : assets ≠ 0) : 0 < s.pool self := by
  rcases h with ⟨h₀, -⟩ | ⟨-, rfl⟩
  · omega
  · refine lt_of_le_of_ne s.pool_nonneg ?_
    intro hp
    simp [← hp] at hne

/-- A trade that mints at most the fair shares, or pays at most the fair assets, keeps the price. -/
theorem price_of_net {paid minted : Int} (hp : 0 < s.pool self) (hs : 0 < s.store.totalShares)
    (ht : t.store.totalShares = s.store.totalShares + minted)
    (hn : t.net self = s.net self + paid)
    (hf : minted * s.pool self ≤ paid * s.store.totalShares) :
    s.pool self * t.store.totalShares ≤ t.pool self * s.store.totalShares := by
  have hle := t.net_le_pool self
  rw [hn, ← Sys.pool_eq_net hp] at hle
  calc s.pool self * t.store.totalShares
      = s.pool self * (s.store.totalShares + minted) := by rw [ht]
    _ ≤ (s.pool self + paid) * s.store.totalShares := SharePool.price_mint hf
    _ ≤ t.pool self * s.store.totalShares := mul_le_mul_of_nonneg_right hle hs.le

/-- With the shares unchanged and nothing taken out, the price cannot fall. -/
theorem price_of_net_le (hs : 0 < s.store.totalShares)
    (ht : t.store.totalShares = s.store.totalShares) (hn : s.net self ≤ t.net self) :
    s.pool self * t.store.totalShares ≤ t.pool self * s.store.totalShares := by
  rw [ht]
  exact mul_le_mul_of_nonneg_right (max_le_max hn le_rfl) hs.le

theorem Trade.price (h : Trade self ctx op s t) (hwf : WellFormed s.store)
    (hs : 0 < s.store.totalShares) :
    s.pool self * t.store.totalShares ≤ t.pool self * s.store.totalShares := by
  cases h with
  | mint items hi hst hg hc =>
    have hl : t.store.liabilities = s.store.liabilities := by rw [hst]; rfl
    have hn : t.net self = s.net self + (items.map (fun i => i.2.1)).sum := by
      simp only [Sys.net]
      omega
    cases items with
    | nil => exact price_of_net_le hs (by simp [hst]) (by simp [hn])
    | cons item rest =>
      have hpo := (hi item List.mem_cons_self).2.2.pool_pos hs
      exact price_of_net hpo hs (by rw [hst]) hn (mints_sum_fair hi hs)
  | request owner shares assets position hsl hps hsh ha hr hft hst hw =>
    have hl : t.store.liabilities = s.store.liabilities + assets := by
      simp only [Store.liabilities, hst, add_assoc]
    have hn : t.net self = s.net self + -assets :=
      Sys.net_of_liabilities (by rw [hst]) (by rw [hst]; rfl) hw hl
    have ht : t.store.totalShares = s.store.totalShares + -shares := by
      rw [hst]
      rfl
    refine price_of_net (hr.pool_pos hs ha) hs ht hn ?_
    have hf := hr.fair hs hsh.1.le
    simp only [neg_mul]
    omega
  | claim id r hgt hp hst hg hc =>
    refine price_of_net_le hs (by rw [hst]; rfl) ?_
    simp only [Sys.net, Store.liabilities, hst, hg, Store.resolve]
    omega
  | cancel id r shares hgt hp hsh hm hst hw =>
    have hl : t.store.liabilities = s.store.liabilities + -r.assets := by
      simp only [Store.liabilities, hst, Store.resolve]
      omega
    have hn : t.net self = s.net self + r.assets := by
      rw [Sys.net_of_liabilities (by rw [hst]; rfl) (by rw [hst]; rfl) hw hl,
        sub_neg_eq_add]
    have ha := hwf.queue.pos id r hgt hp
    exact price_of_net (hm.pool_pos hs) hs (by rw [hst]) hn (hm.fair hs ha.le)
  | sweep treasury hfs hst hg hcl =>
    refine price_of_net_le hs (by rw [hst]; rfl) ?_
    simp only [Sys.net, Store.liabilities, hst, hg, Store.setFees]
    split_ifs <;> omega

/-- The price of a share never falls by a deposit, a batch, a request, a cancellation, a claim or
a sweep of the fees. -/
theorem share_price_monotone {W₀ : World} {moves : List (Move Outside)}
    {s₁ t₁ : Sys World} {assets assets' : Int} (hop : op.isTrade = true)
    (hs : 0 < (run (honest self) (outside self) W₀ moves).store.totalShares)
    (h : exec (honest self) ctx op (run (honest self) (outside self) W₀ moves) = .ok ((), t))
    (hassets : totalAssets (honest self) (run (honest self) (outside self) W₀ moves) =
      .ok (assets, s₁))
    (hassets' : totalAssets (honest self) t = .ok (assets', t₁)) :
    assets * t.store.totalShares ≤
      assets' * (run (honest self) (outside self) W₀ moves).store.totalShares := by
  have hwf : WellFormed (run (honest self) (outside self) W₀ moves).store := wellFormed_run W₀ moves
  obtain ⟨rfl, -⟩ := tryTotalAssets_honest hassets
  obtain ⟨rfl, -⟩ := tryTotalAssets_honest hassets'
  exact (exec_trade hop hwf h).price hwf hs

/-- A hundred shares worth 150. -/
def pricedRun : List (Move Outside) :=
  [.world (.wallet 3 1000), .world (.wallet 4 1000), .call ⟨0, []⟩ (.initializeAdapter 1 2 9),
    .call ⟨0, [3]⟩ (.deposit 3 100), .world (.donate 50)]

theorem share_price_monotone_deposit :
    let s := run (honest 0) (outside 0) genesis pricedRun
    let t := (exec (honest 0) ⟨0, [4]⟩ (.deposit 4 30)).after s
    s.store.totalShares = 100 ∧ t.store.totalShares = 120 ∧
      150 * t.store.totalShares ≤ 180 * s.store.totalShares :=
  ⟨by decide, by decide, share_price_monotone rfl (by decide)
    (Call.after_of_succeeds (x := exec (honest 0) ⟨0, [4]⟩ (.deposit 4 30)) (by decide)) rfl rfl⟩

end Stow.Adapter
