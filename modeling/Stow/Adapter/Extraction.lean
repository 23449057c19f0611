import Mathlib.Tactic.FieldSimp
import Stow.Adapter.FeeBase

/-! How much one depositor can take out. -/
namespace Stow.Adapter

open Stow.Lib Stow.Lib.Contract List

variable {self i : Address} {s t : Sys World} {ctx : Ctx} {op : Op}

/-! ### What a depositor has -/

def Store.sharesOf (st : Store) (i : Address) : Int := (st.positions.get i).elim 0 Position.shares

def WithdrawRequest.owedTo (i : Address) (r : WithdrawRequest) : Int :=
  if r.owner = i then r.owed else 0

def Store.pendingOf (st : Store) (i : Address) : Int :=
  st.withdrawRequests.sum (WithdrawRequest.owedTo i)

def Sys.price (self : Address) (s : Sys World) : ℚ :=
  SharePool.price s.store.totalShares (s.pool self)

def Sys.stakeOf (self i : Address) (s : Sys World) : ℚ :=
  SharePool.stake s.store.totalShares (s.pool self) (s.store.sharesOf i)

/-- What the adapter has and does not see: tokens before it knows its token, and what lies in
strategies that are not active. -/
def Sys.hidden (self : Address) (s : Sys World) : Int :=
  (if s.store.token = none then (s.world.tokens self : Int) else 0) + (s.claimed - s.live self)

/-- What rounding down takes from someone who pays in an amount. -/
def Sys.mintLoss (self : Address) (s : Sys World) (amount : Int) : ℚ :=
  if s.store.totalShares = 0 then 0
  else ((amount * s.store.totalShares).tmod (s.pool self) : Int) / s.store.totalShares

/-- What rounding down takes from someone who redeems shares. -/
def Sys.redeemLoss (self : Address) (s : Sys World) (shares : Int) : ℚ :=
  if s.store.totalShares = 0 then 0
  else ((shares * s.pool self).tmod s.store.totalShares : Int) / s.store.totalShares

/-! ### The books of one depositor -/

/-- What `i` paid in and was paid, what flowed in from outside, and what rounding took from all
others. -/
structure Account where
  deposited : Int
  paid : Int
  earned : Int
  loss : ℚ
  deriving Repr, DecidableEq

def Outside.inflow : Outside → Int
  | .gain _ delta => max delta 0
  | .donate amount => amount
  | .wallet _ _ => 0

def Op.paidInBy (i : Address) (op : Op) : Int :=
  (op.paidIn.map (fun x => if x.1 = i then x.2 else 0)).sum

def Store.assetsOf (st : Store) (id : Nat) : Int :=
  (st.withdrawRequests.get id).elim 0 WithdrawRequest.assets

def Op.paidTo (i : Address) (st : Store) : Op → Int
  | .claimWithdraw owner id => if owner = i then st.assetsOf id else 0
  | _ => 0

/-- What rounding takes from everyone but `i` in a call. -/
def Op.lossOfOthers (self i : Address) (s : Sys World) : Op → ℚ
  | .requestWithdraw owner shares => if owner = i then 0 else s.redeemLoss self shares
  | .cancelWithdraw owner id => if owner = i then 0 else s.mintLoss self (s.store.assetsOf id)
  | op => (op.paidIn.map (fun x => if x.1 = i then 0 else s.mintLoss self x.2)).sum

def Account.note (self i : Address) (s : Sys World) (m : Move Outside) (g : Account) : Account :=
  match m with
  | .world e => { g with earned := g.earned + e.inflow }
  | .call ctx op =>
    if (exec (honest self) ctx op).succeeds s then
      { g with
        deposited := g.deposited + op.paidInBy i
        paid := g.paid + op.paidTo i s.store
        loss := g.loss + op.lossOfOthers self i s }
    else g

/-- The adapter together with the books of `i`. -/
def booked (self i : Address) : Sys World × Account → Move Outside → Sys World × Account :=
  watch (step (honest self) (outside self)) (Account.note self i)

/-! ### Conversions -/

theorem Sys.pool_cast_nonneg (self : Address) (s : Sys World) : (0 : ℚ) ≤ (s.pool self : ℚ) := by
  exact_mod_cast s.pool_nonneg

theorem cast_tdiv_add_tmod (a b : Int) :
    (b : ℚ) * (a.tdiv b : Int) + (a.tmod b : Int) = a := by
  exact_mod_cast Int.mul_tdiv_add_tmod a b

/-- An amount is worth the shares it mints, and what rounding takes. -/
theorem Sys.Mints.worth {amount shares : Int} (h : s.Mints self amount shares)
    (hs : 0 ≤ s.store.totalShares) (ha : 0 ≤ amount) :
    (amount : ℚ) = shares * s.price self + s.mintLoss self amount ∧
      0 ≤ s.mintLoss self amount := by
  rcases h with ⟨h₀, rfl⟩ | ⟨h₀, hp, rfl⟩
  · simp [Sys.price, SharePool.price, Sys.mintLoss, h₀]
  · have hS : (0 : ℚ) < s.store.totalShares := by
      exact_mod_cast lt_of_le_of_ne hs (Ne.symm h₀)
    have hd := cast_tdiv_add_tmod (amount * s.store.totalShares) (s.pool self)
    have hm : 0 ≤ (amount * s.store.totalShares).tmod (s.pool self) :=
      Int.tmod_nonneg _ (mul_nonneg ha hs)
    simp only [Sys.price, SharePool.price, Sys.mintLoss, h₀, Int.cast_eq_zero, ↓reduceIte]
    refine ⟨?_, div_nonneg (by exact_mod_cast hm) hS.le⟩
    field_simp
    push_cast at hd
    linarith

/-- Shares are worth the assets they redeem, and what rounding takes. -/
theorem Sys.Redeems.worth {shares assets : Int} (h : s.Redeems self shares assets)
    (hs : 0 < s.store.totalShares) (hsh : 0 ≤ shares) :
    (shares : ℚ) * s.price self = assets + s.redeemLoss self shares ∧
      0 ≤ s.redeemLoss self shares := by
  rcases h with ⟨h₀, -⟩ | ⟨h₀, rfl⟩
  · omega
  · have hS : (0 : ℚ) < s.store.totalShares := by exact_mod_cast hs
    have hd := cast_tdiv_add_tmod (shares * s.pool self) s.store.totalShares
    have hm : 0 ≤ (shares * s.pool self).tmod s.store.totalShares :=
      Int.tmod_nonneg _ (mul_nonneg hsh s.pool_nonneg)
    simp only [Sys.price, SharePool.price, Sys.redeemLoss, h₀, Int.cast_eq_zero, ↓reduceIte]
    refine ⟨?_, div_nonneg (by exact_mod_cast hm) hS.le⟩
    field_simp
    push_cast at hd
    linarith

/-! ### What calls do to a depositor's shares and requests -/

theorem sharesOf_nonneg (h : WellFormed s.store) (i : Address) : 0 ≤ s.store.sharesOf i := by
  unfold Store.sharesOf
  cases hp : s.store.positions.get i with
  | none => exact le_rfl
  | some p => exact h.shares.nonneg i p hp

theorem sharesOf_le (h : WellFormed s.store) (i : Address) :
    s.store.sharesOf i ≤ s.store.totalShares := by
  unfold Store.sharesOf
  cases hp : s.store.positions.get i with
  | none => exact h.shares.total_nonneg
  | some p => exact h.shares.le_total hp

theorem writeShares_elim (positions : SortedMap Address Position) (owner i : Address) (now : Nat)
    (shares : Int) :
    ((writeShares positions owner now shares).get i).elim 0 Position.shares =
      if i = owner then shares else (positions.get i).elim 0 Position.shares := by
  simp only [writeShares, SortedMap.get_set]
  split_ifs <;> rfl

/-- One position is rewritten and all others stay. -/
theorem sharesOf_write {owner : Address} {now : Nat} {minted : Int} (i : Address)
    (h : t.store.positions =
      writeShares s.store.positions owner now (s.store.sharesOf owner + minted)) :
    t.store.sharesOf i = s.store.sharesOf i + if owner = i then minted else 0 := by
  rw [Store.sharesOf, h, writeShares_elim]
  by_cases hi : i = owner
  · simp [hi]
  · simp [hi, Ne.symm hi, Store.sharesOf]

theorem mintAll_elim (now : Nat) (items : List (Address × Int))
    (positions : SortedMap Address Position) (i : Address) :
    ((mintAll now items positions).get i).elim 0 Position.shares =
      (positions.get i).elim 0 Position.shares +
        (items.map (fun x => if x.1 = i then x.2 else 0)).sum := by
  induction items generalizing positions with
  | nil => simp [mintAll]
  | cons item rest ih =>
    obtain ⟨owner, shares⟩ := item
    simp only [mintAll, ih, writeShares_elim, map_cons, sum_cons, positionOf_shares]
    by_cases h : i = owner
    · subst h
      simp only [↓reduceIte]
      omega
    · simp only [h, Ne.symm h, ↓reduceIte]
      omega

theorem pending_nonneg (h : WellFormed s.store) (i : Address) : 0 ≤ s.store.pendingOf i := by
  refine SortedMap.sum_nonneg ?_
  intro id r hg
  unfold WithdrawRequest.owedTo
  split_ifs
  · exact h.queue.nonneg id r hg
  · exact le_rfl

theorem pendingOf_enqueue (h : WellFormed s.store) (i : Address) {q : WithdrawRequest}
    (hp : q.pending = true) :
    (s.store.withdrawRequests.set (s.store.nextWithdrawId + 1) q).sum (WithdrawRequest.owedTo i) =
      s.store.pendingOf i + if q.owner = i then q.assets else 0 := by
  have hn := h.queue.get_eq_none (Nat.lt_succ_self _)
  simp [SortedMap.sum_set, hn, Store.pendingOf, WithdrawRequest.owedTo, WithdrawRequest.owed, hp]

theorem pendingOf_resolve (h : WellFormed s.store) (i : Address) {id : Nat}
    {r q : WithdrawRequest} (hg : s.store.withdrawRequests.get id = some r)
    (hp : r.pending = true) (hid : q.id = r.id) (hq : q.pending = false) :
    (s.store.withdrawRequests.set q.id q).sum (WithdrawRequest.owedTo i) =
      s.store.pendingOf i - if r.owner = i then r.assets else 0 := by
  rw [hid, (h.queue.id_eq id r hg).1]
  simp [SortedMap.sum_set, hg, Store.pendingOf, WithdrawRequest.owedTo, WithdrawRequest.owed, hp,
    hq]

theorem assetsOf_eq {id : Nat} {r : WithdrawRequest}
    (hg : s.store.withdrawRequests.get id = some r) : s.store.assetsOf id = r.assets := by
  simp [Store.assetsOf, hg]

/-! ### What a trade leaves one depositor -/

theorem pool_le {gain : Int} (hg : 0 ≤ gain) (h : t.net self ≤ s.net self + gain) :
    t.pool self ≤ s.pool self + gain := by
  unfold Sys.pool
  omega

/-- A holder's stake, when the pool grows by the price of the new shares and `gain`. -/
theorem stakeOf_step (self i : Address) (gain : ℚ) (hwf' : WellFormed t.store) (hg : 0 ≤ gain)
    (hp : (t.pool self : ℚ) ≤
      s.pool self + (t.store.totalShares - s.store.totalShares) * s.price self + gain) :
    t.stakeOf self i ≤
      s.stakeOf self i + (t.store.sharesOf i - s.store.sharesOf i) * s.price self + gain := by
  refine SharePool.stake_step (s.pool_cast_nonneg self) ?_ ?_ hg hp
  · exact_mod_cast sharesOf_nonneg hwf' i
  · exact_mod_cast sharesOf_le hwf' i

/-- With the same shares, a holder gains no more than the pool. -/
theorem stakeOf_gain (self i : Address) (gain : Int) (hwf' : WellFormed t.store)
    (ht : t.store.totalShares = s.store.totalShares)
    (hs : t.store.sharesOf i = s.store.sharesOf i) (hg : 0 ≤ gain)
    (hn : t.net self ≤ s.net self + gain) :
    t.stakeOf self i ≤ s.stakeOf self i + gain := by
  have hp : (t.pool self : ℚ) ≤ s.pool self + gain := by exact_mod_cast pool_le hg hn
  have h := stakeOf_step (s := s) self i gain hwf' (by exact_mod_cast hg)
    (by rw [ht, sub_self, zero_mul, add_zero]; exact hp)
  rwa [hs, sub_self, zero_mul, add_zero] at h

/-- All items of a batch: what they are worth together, and what part of it is `i`'s. -/
theorem mints_worth {items : List (Address × Int × Int)}
    (h : ∀ x ∈ items, 0 < x.2.1 ∧ x.2.2 ≠ 0 ∧ s.Mints self x.2.1 x.2.2)
    (hs : 0 ≤ s.store.totalShares) (i : Address) :
    let loss := (items.map (fun x => s.mintLoss self x.2.1)).sum
    0 ≤ loss ∧
      (((items.map (fun x => x.2.1)).sum : Int) : ℚ) =
        ((items.map (fun x => x.2.2)).sum : Int) * s.price self + loss ∧
      (((items.map (fun x => if x.1 = i then x.2.2 else 0)).sum : Int) : ℚ) * s.price self + loss =
        ((items.map (fun x => if x.1 = i then x.2.1 else 0)).sum : Int) +
          (items.map (fun x => if x.1 = i then 0 else s.mintLoss self x.2.1)).sum := by
  induction items with
  | nil => simp
  | cons item rest ih =>
    obtain ⟨hp, -, hm⟩ := h item mem_cons_self
    obtain ⟨hw, hnn⟩ := hm.worth hs hp.le
    obtain ⟨h₁, h₂, h₃⟩ := ih (fun x hx => h x (mem_cons_of_mem _ hx))
    simp only [map_cons, sum_cons, Int.cast_add]
    refine ⟨add_nonneg hnn h₁, by linarith, ?_⟩
    split_ifs
    · linarith
    · rw [Int.cast_zero]
      linarith

theorem Trade.hidden (h : Trade self ctx op s t) (hwf : WellFormed s.store)
    (hf : s.store.feesAccrued = 0) : t.hidden self = s.hidden self := by
  have hb := h.basis.1
  unfold Sys.hidden
  cases h with
  | mint items hi hs hg hc ht =>
    have ht' : t.store.token ≠ none := by rw [hs]; exact ht
    simp only [ht, ht', ↓reduceIte]
    omega
  | request owner shares assets position hsl hps hsh ha hr hft hs hw =>
    have ht : t.store.token = s.store.token := by rw [hs]
    rw [ht, hw]
    omega
  | claim id r hgt hp hs hg hc =>
    have ht := (hwf.setup.of_request hgt).2
    have ht' : t.store.token ≠ none := by rw [hs]; exact ht
    simp only [ht, ht', ↓reduceIte]
    omega
  | cancel id r shares hgt hp hsh hm hs hw =>
    have ht : t.store.token = s.store.token := by rw [hs]; rfl
    rw [ht, hw]
    omega
  | sweep treasury hpo => omega

theorem Trade.feeless (h : Trade self ctx op s t) (hf : s.store.feesAccrued = 0) :
    t.store.feesAccrued = 0 := by
  cases h with
  | mint _ _ hs | request _ _ _ _ _ _ _ _ _ _ hs | claim _ _ _ _ hs | cancel _ _ _ _ _ _ _ hs =>
    rw [hs]
    exact hf
  | sweep treasury hpo => omega

/-- Shares minted for `amount`: what they and the pool's gain leave `i` with. -/
theorem stakeOf_mint (items : List (Address × Int × Int)) (i : Address)
    (hi : ∀ x ∈ items, 0 < x.2.1 ∧ x.2.2 ≠ 0 ∧ s.Mints self x.2.1 x.2.2)
    (hwf : WellFormed s.store) (hwf' : WellFormed t.store)
    (ht : t.store.totalShares = s.store.totalShares + (items.map (fun x => x.2.2)).sum)
    (hsh : t.store.sharesOf i =
      s.store.sharesOf i + (items.map (fun x => if x.1 = i then x.2.2 else 0)).sum)
    (hn : t.net self = s.net self + (items.map (fun x => x.2.1)).sum) :
    t.stakeOf self i ≤ s.stakeOf self i +
      ((items.map (fun x => if x.1 = i then x.2.1 else 0)).sum : Int) +
        (items.map (fun x => if x.1 = i then 0 else s.mintLoss self x.2.1)).sum := by
  obtain ⟨hl, hw, hm⟩ := mints_worth hi hwf.shares.total_nonneg i
  have hpd : 0 ≤ (items.map (fun x => x.2.1)).sum := by
    refine sum_nonneg ?_
    intro a ha
    obtain ⟨x, hx, rfl⟩ := mem_map.mp ha
    exact (hi x hx).1.le
  have hp : (t.pool self : ℚ) ≤ s.pool self + ((items.map (fun x => x.2.1)).sum : Int) := by
    exact_mod_cast pool_le hpd hn.le
  have hs := stakeOf_step (s := s) self i _ hwf' hl (by
    rw [ht]
    push_cast at hp hw ⊢
    linarith)
  rw [hsh] at hs
  push_cast at hs hm ⊢
  linarith

theorem stakeOf_request {owner : Address} {shares assets : Int} {position : Position} (i : Address)
    (hwf : WellFormed s.store) (hwf' : WellFormed t.store)
    (hps : s.store.positions.get owner = some position)
    (hsr : 0 < shares ∧ shares ≤ position.shares) (ha : assets ≠ 0)
    (hr : s.Redeems self shares assets)
    (ht : t.store.totalShares = s.store.totalShares - shares)
    (hsh : t.store.sharesOf i = s.store.sharesOf i + if owner = i then -shares else 0)
    (hn : t.net self = s.net self - assets) :
    t.stakeOf self i + (if owner = i then assets else 0 : Int) ≤
      s.stakeOf self i + (if owner = i then 0 else s.redeemLoss self shares) := by
  have hle := hsr.2.trans (hwf.shares.le_total hps)
  have hs : 0 < s.store.totalShares := by omega
  obtain ⟨hw, hl⟩ := hr.worth hs hsr.1.le
  have hpo := hr.pool_pos hs ha
  have hf := hr.le_pool hsr.1 hle
  have hp : t.pool self = s.pool self - assets := by
    unfold Sys.pool at *
    omega
  have hst := stakeOf_step (s := s) self i _ hwf' hl (by
    rw [ht, hp]
    push_cast
    linarith)
  rw [hsh] at hst
  split_ifs at hst ⊢ <;>
  · push_cast at hst ⊢
    linarith

/-- The most that `i` may still be paid: requests, stake, and what may yet come to light. -/
def Sys.reachOf (self i : Address) (s : Sys World) : ℚ :=
  s.store.pendingOf i + s.stakeOf self i + s.hidden self

theorem Trade.account (h : Trade self ctx op s t) (hwf : WellFormed s.store)
    (hwf' : WellFormed t.store) (hf : s.store.feesAccrued = 0) (i : Address) :
    (op.paidTo i s.store : ℚ) + t.reachOf self i ≤
      s.reachOf self i + op.paidInBy i + op.lossOfOthers self i s := by
  have hh := h.hidden hwf hf
  unfold Sys.reachOf
  cases h with
  | mint items hi hst hg hc ht hop hpd =>
    have hpn : t.store.pendingOf i = s.store.pendingOf i := by rw [hst]; rfl
    have hsr : t.store.sharesOf i =
        s.store.sharesOf i + (items.map (fun x => if x.1 = i then x.2.2 else 0)).sum := by
      simp only [Store.sharesOf, hst, mintAll_elim, map_map]
      rfl
    have hn : t.net self = s.net self + (items.map (fun x => x.2.1)).sum := by
      simp only [Sys.net, Store.liabilities, hst, hg]
      omega
    have hs := stakeOf_mint items i hi hwf hwf' (by rw [hst]) hsr hn
    have hin : op.paidInBy i = (items.map (fun x => if x.1 = i then x.2.1 else 0)).sum := by
      rw [Op.paidInBy, ← hpd, map_map]
      rfl
    have hls : op.lossOfOthers self i s =
        (items.map (fun x => if x.1 = i then 0 else s.mintLoss self x.2.1)).sum := by
      have hmp : (items.map (fun x => if x.1 = i then 0 else s.mintLoss self x.2.1)).sum =
          (op.paidIn.map (fun x => if x.1 = i then 0 else s.mintLoss self x.2)).sum := by
        rw [← hpd, map_map]
        rfl
      rw [hmp]
      cases op <;> simp only [Op.isDeposit, Bool.false_eq_true] at hop <;> rfl
    have ho : op.paidTo i s.store = 0 := by
      cases op <;> simp only [Op.isDeposit, Bool.false_eq_true] at hop <;> rfl
    rw [ho, hpn, hin, hls, hh, Int.cast_zero]
    linarith
  | request owner shares assets position hsl hpt hsr ha hr hft hst hw
      hop =>
    subst hop
    have hpn : t.store.pendingOf i = s.store.pendingOf i + if owner = i then assets else 0 := by
      rw [Store.pendingOf, hst]
      exact pendingOf_enqueue hwf i rfl
    have hps : t.store.positions =
        writeShares s.store.positions owner ctx.now (s.store.sharesOf owner + -shares) := by
      simp [hst, Store.sharesOf, hpt, sub_eq_add_neg]
    have hl : t.store.liabilities = s.store.liabilities + assets := by
      simp only [Store.liabilities, hst, add_assoc]
    have hn : t.net self = s.net self - assets :=
      Sys.net_of_liabilities (by rw [hst]) (by rw [hst]; rfl) hw hl
    have hs := stakeOf_request i hwf hwf' hpt hsr ha hr (by rw [hst])
      (sharesOf_write i hps) hn
    simp only [Op.paidTo, Op.paidInBy, Op.paidIn, Op.lossOfOthers, map_nil, sum_nil,
      hpn, hh]
    push_cast at hs ⊢
    linarith
  | claim id r hgt hpn hst hg hc hop =>
    subst hop
    have hp : t.store.pendingOf i =
        s.store.pendingOf i - if r.owner = i then r.assets else 0 := by
      rw [Store.pendingOf, hst]
      exact pendingOf_resolve hwf i hgt hpn rfl (pending_claimed r ctx.now)
    have hn : t.net self ≤ s.net self + 0 := by
      simp only [Sys.net, Store.liabilities, hst, hg, Store.resolve]
      omega
    have hs := stakeOf_gain self i 0 hwf' (by rw [hst]; rfl) (by rw [hst]; rfl) le_rfl hn
    simp only [Op.paidTo, Op.paidInBy, Op.paidIn, Op.lossOfOthers, map_nil, sum_nil,
      hp, hh, assetsOf_eq hgt]
    push_cast at hs ⊢
    linarith
  | cancel id r shares hgt hpn hsr hm hst hw hop =>
    subst hop
    have ha := hwf.queue.pos id r hgt hpn
    have hp : t.store.pendingOf i =
        s.store.pendingOf i - if r.owner = i then r.assets else 0 := by
      rw [Store.pendingOf, hst]
      exact pendingOf_resolve hwf i hgt hpn rfl (pending_cancelled r ctx.now)
    have hsh : t.store.sharesOf i =
        s.store.sharesOf i + if r.owner = i then shares else 0 :=
      sharesOf_write i (by rw [hst, Store.sharesOf, ← positionOf_shares])
    have hl : t.store.liabilities = s.store.liabilities + -r.assets := by
      simp only [Store.liabilities, hst, Store.resolve]
      omega
    have hn : t.net self = s.net self + r.assets := by
      rw [Sys.net_of_liabilities (by rw [hst]; rfl) (by rw [hst]; rfl) hw hl,
        sub_neg_eq_add]
    -- a cancellation is a deposit of the request's assets
    have hi : ∀ x ∈ [(r.owner, r.assets, shares)],
        0 < x.2.1 ∧ x.2.2 ≠ 0 ∧ s.Mints self x.2.1 x.2.2 := by
      simp [ha, hsr, hm]
    have hs := stakeOf_mint [(r.owner, r.assets, shares)] i hi hwf hwf'
      (by rw [hst]; simp) (by simpa using hsh) (by simpa using hn)
    simp only [Op.paidTo, Op.paidInBy, Op.paidIn, Op.lossOfOthers, map_nil, sum_nil,
      hp, hh, assetsOf_eq hgt]
    simp only [map_cons, map_nil, sum_cons, sum_nil, add_zero] at hs
    push_cast at hs ⊢
    linarith
  | sweep treasury hpo => omega

/-! ### Everything else -/

/-- No harvest takes a fee. -/
def NoFee (self : Address) (s : Sys World) : Move Outside → Prop
  | .call _ (.harvest _) => s.feeDue self = 0
  | _ => True

theorem noFee_call : (op.isHarvest = true → s.feeDue self = 0) ↔ NoFee self s (.call ctx op) := by
  cases op <;> simp [Op.isHarvest, NoFee]

instance : DecidablePred (NoFee self s)
  | .world _ => isTrue trivial
  | .call _ op =>
    have : Decidable (s.feeDue self = 0) := Int.instDecidableEq _ _
    decidable_of_iff (op.isHarvest = true → s.feeDue self = 0) noFee_call

/-- With the same shares and requests, the reach grows by what comes in beyond what was hidden. -/
theorem reachOf_le (i : Address) (gain inflow : Int) {st : Store} (hwf' : WellFormed t.store)
    (hs : t.store = st) (ht : st.totalShares = s.store.totalShares)
    (hp : st.positions = s.store.positions) (hr : st.withdrawRequests = s.store.withdrawRequests)
    (hg : 0 ≤ gain) (hn : t.net self ≤ s.net self + gain)
    (hin : gain + (t.hidden self - s.hidden self) ≤ inflow) :
    t.reachOf self i ≤ s.reachOf self i + inflow := by
  subst hs
  have hsh : t.store.sharesOf i = s.store.sharesOf i := by rw [Store.sharesOf, hp]; rfl
  have hpn : t.store.pendingOf i = s.store.pendingOf i := by
    rw [Store.pendingOf, hr]
    rfl
  have hs := stakeOf_gain self i gain hwf' ht hsh hg hn
  have hq : (gain : ℚ) + (t.hidden self - s.hidden self : ℚ) ≤ inflow := by exact_mod_cast hin
  unfold Sys.reachOf
  rw [hpn]
  linarith

theorem hidden_congr (ht : t.store.token = s.store.token)
    (ha : t.store.activeAddress = s.store.activeAddress) (hw : t.world = s.world) :
    t.hidden self = s.hidden self := by
  obtain ⟨hl, hc⟩ := Sys.live_congr self ha (by rw [hw])
  rw [Sys.hidden, Sys.hidden, ht, hw, hl, hc]

/-- Until the adapter is set up there is nothing that it sees. -/
theorem unseeded_empty (self : Address) (hwf : WellFormed s.store) (had : s.store.admin = none) :
    s.store.token = none ∧ s.store.totalShares = 0 ∧ s.live self = 0 ∧
      s.store.reservedWithdrawAssets = 0 := by
  rcases hwf.setup with ⟨h, -⟩ | ⟨-, ht, hp, hr, hs⟩
  · exact absurd had h
  · refine ⟨ht, ?_, ?_, ?_⟩
    · rw [hwf.shares.total_eq, hp]
      rfl
    · cases ha : s.store.activeStrategy with
      | none => simp [Sys.live, World.liveOn, Store.activeAddress, Store.activeInfo, ha]
      | some id => exact absurd (by simp [hs]) (hwf.registry.active_known id ha)
    · rw [hwf.queue.reserved_eq, hr]
      rfl

theorem Op.quiet_of_not_trade (hop : op.isTrade = false) (self i : Address) (s : Sys World) :
    op.paidTo i s.store = 0 ∧ op.paidInBy i = 0 ∧ op.lossOfOthers self i s = 0 := by
  cases op <;> simp only [Op.isTrade, Bool.true_eq_false] at hop <;>
    simp [Op.paidTo, Op.paidInBy, Op.paidIn, Op.lossOfOthers]

theorem reachOf_nonneg (hwf : WellFormed s.store) : 0 ≤ s.reachOf self i := by
  have hp : (0 : ℚ) ≤ s.store.pendingOf i := by exact_mod_cast pending_nonneg hwf i
  have hs : 0 ≤ s.stakeOf self i :=
    SharePool.stake_nonneg (by exact_mod_cast hwf.shares.total_nonneg) (s.pool_cast_nonneg self)
      (by exact_mod_cast sharesOf_nonneg hwf i)
  have hh : 0 ≤ s.hidden self := by
    have hl := s.live_le_claimed self
    unfold Sys.hidden
    split_ifs <;> omega
  have hh' : (0 : ℚ) ≤ s.hidden self := by exact_mod_cast hh
  unfold Sys.reachOf
  linarith

theorem Effect.reach (h : Effect self ctx op s t) (hop : op.isTrade = false)
    (hwf : WellFormed s.store) (hwf' : WellFormed t.store) (hfs : s.store.feesAccrued = 0)
    (hfe : NoFee self s (.call ctx op)) (i : Address) :
    t.store.feesAccrued = 0 ∧ t.reachOf self i ≤ s.reachOf self i := by
  suffices h : t.store.feesAccrued = 0 ∧ t.reachOf self i ≤ s.reachOf self i + (0 : Int) by
    simpa using h
  cases h with
  | trade h =>
    have hle := h.account hwf hwf' hfs i
    obtain ⟨h₁, h₂, h₃⟩ := Op.quiet_of_not_trade hop self i s
    rw [h₁, h₂, h₃] at hle
    exact ⟨h.feeless hfs, by push_cast at hle ⊢; linarith⟩
  | config hb hw =>
    have hg : t.gross self = s.gross self := Sys.gross_congr hb.token hb.active hw
    have hh : t.hidden self = s.hidden self := hidden_congr hb.token hb.active hw
    have hf := hb.feesAccrued
    have hr := hb.reserved
    have hn : t.net self ≤ s.net self + 0 := by
      simp only [Sys.net, Store.liabilities]
      omega
    exact ⟨by omega, reachOf_le i 0 0 hwf' rfl hb.totalShares hb.positions hb.withdrawRequests
      le_rfl hn (by omega)⟩
  | seeded admin treasury token ha hs hw =>
    obtain ⟨htk, ht, hlv, hrs⟩ := unseeded_empty self hwf ha
    obtain ⟨hl', hc⟩ := Sys.live_congr (s := s) (t := t) self (by rw [hs]; rfl) (by rw [hw])
    -- the tokens that were already there come to light
    have hi' : t.idle self = s.world.tokens self := by
      simp [Sys.idle, hs, Store.seeded, hw]
    have hn : t.net self ≤ s.net self + s.world.tokens self := by
      have hl : t.store.liabilities = 0 := by rw [hs]; rfl
      have hi : s.idle self = 0 := by simp [Sys.idle, htk]
      simp only [Sys.net, Sys.gross, Store.liabilities] at hl ⊢
      omega
    have ht' : t.store.token ≠ none := by rw [hs]; simp [Store.seeded]
    refine ⟨by rw [hs]; rfl, reachOf_le i _ 0 hwf' hs ht.symm rfl rfl (Int.natCast_nonneg _) hn ?_⟩
    simp only [Sys.hidden, htk, ht', ↓reduceIte]
    omega
  | harvest caller hhr hs hw =>
    subst hhr
    have hd : s.feeDue self = 0 := hfe
    have hh : t.hidden self = s.hidden self :=
      hidden_congr (by rw [hs]; rfl) (by rw [hs]; rfl) hw
    have hn := net_of_harvested hs hw
    have hf' : t.store.feesAccrued = s.store.feesAccrued + s.feeDue self := by
      rw [hs]
      rfl
    exact ⟨by omega, reachOf_le i 0 0 hwf' hs rfl rfl rfl le_rfl (by omega) (by omega)⟩
  | retarget id hs hi hlv hc htk =>
    have ht' : t.store.token ≠ none := by rw [hs]; exact htk
    have hl : t.store.liabilities = s.store.liabilities := by rw [hs]; rfl
    have hn : t.net self ≤ s.net self + (t.live self - s.live self) := by
      simp only [Sys.net, Sys.gross]
      omega
    refine ⟨by rw [hs]; exact hfs, reachOf_le i _ 0 hwf' hs rfl rfl rfl (by omega) hn ?_⟩
    simp only [Sys.hidden, htk, ht', ↓reduceIte]
    omega
  | recalled hs hi hc htk =>
    have ht' : t.store.token ≠ none := by rw [hs]; exact htk
    have hl : t.store.liabilities = s.store.liabilities := by rw [hs]; rfl
    have hlv : t.live self = 0 := by
      simp [Sys.live, World.liveOn, Store.activeAddress, Store.activeInfo, Store.setActive, hs]
    have hn : t.net self ≤ s.net self + 0 := by
      simp only [Sys.net, Sys.gross]
      omega
    refine ⟨by rw [hs]; exact hfs, reachOf_le i _ 0 hwf' hs rfl rfl rfl le_rfl hn ?_⟩
    simp only [Sys.hidden, htk, ht', ↓reduceIte]
    omega

/-- What the world brings in shows in the pool or stays hidden. -/
theorem inflow_effect (self : Address) (s : Sys World) (e : Outside) :
    ∃ gain, 0 ≤ gain ∧ (s.after self e).net self ≤ s.net self + gain ∧
      gain + ((s.after self e).hidden self - s.hidden self) ≤ e.inflow := by
  have hl : (s.after self e).store.liabilities = s.store.liabilities := rfl
  have ht' : (s.after self e).store.token = s.store.token := rfl
  unfold Sys.net Sys.gross Sys.hidden
  cases e with
  | gain strategy delta =>
    obtain ⟨inc, hc, hi, hlv, hin, -, -⟩ := gain_effect self s strategy delta
    have ht : (s.after self (.gain strategy delta)).world.tokens = s.world.tokens := rfl
    refine ⟨max ((s.after self (.gain strategy delta)).live self - s.live self) 0,
      le_max_right _ _, by omega, ?_⟩
    simp only [Outside.inflow, ht', ht]
    omega
  | donate amount =>
    obtain ⟨hc, hlv, hi⟩ := donate_effect self s amount
    have ht : (s.after self (.donate amount)).world.tokens self =
        s.world.tokens self + amount := Ledger.set_self _ _ _
    simp only [Outside.inflow, ht', ht]
    by_cases htk : s.store.token = none
    · have hidle₀ : s.idle self = 0 := if_pos htk
      simp only [htk, ↓reduceIte] at hi ⊢
      exact ⟨0, le_rfl, by omega, by omega⟩
    · simp only [htk, ↓reduceIte] at hi ⊢
      exact ⟨amount, by omega, by omega, by omega⟩
  | wallet holder balance =>
    obtain ⟨hc, hlv, hi⟩ := wallet_effect self s holder balance
    have ht : (s.after self (.wallet holder balance)).world.tokens self =
        s.world.tokens self := by
      by_cases h : holder = self
      · simp [Sys.after, outside, h]
      · simp [Sys.after, outside, h, Ledger.set_other _ _ (Ne.symm h)]
    simp only [Outside.inflow, ht', ht]
    exact ⟨0, le_rfl, by omega, by omega⟩

theorem reachOf_after (self i : Address) (s : Sys World) (e : Outside) (hwf : WellFormed s.store) :
    (s.after self e).reachOf self i ≤ s.reachOf self i + e.inflow := by
  obtain ⟨gain, hg, hn, hin⟩ := inflow_effect self s e
  exact reachOf_le i gain e.inflow hwf rfl rfl rfl rfl hg hn hin

/-! ### Runs -/

structure Account.Fair (adapter i : Address) (p : Sys World × Account) : Prop where
  wellFormed : WellFormed p.1.store
  feeless : p.1.store.feesAccrued = 0
  bound : (p.2.paid : ℚ) + p.1.reachOf adapter i ≤ p.2.deposited + p.2.earned + p.2.loss

theorem fair_booked {p : Sys World × Account} (m : Move Outside) (h : Account.Fair self i p)
    (hfe : NoFee self p.1 m) : Account.Fair self i (booked self i p m) := by
  have hb := h.bound
  cases m with
  | world e =>
    refine ⟨h.wellFormed, h.feeless, ?_⟩
    have hle := reachOf_after self i p.1 e h.wellFormed
    show (p.2.paid : ℚ) + (p.1.after self e).reachOf self i ≤
      p.2.deposited + (p.2.earned + e.inflow : Int) + p.2.loss
    push_cast
    linarith
  | call ctx op =>
    have hwf : WellFormed (step (honest self) (outside self) p.1 (.call ctx op)).store :=
      wellFormed_step h.wellFormed _
    rcases (exec (honest self) ctx op).after_cases p.1 with ⟨u, t, hok, ha⟩ | ⟨⟨f, hf⟩, ha⟩
    · have hsc : (exec (honest self) ctx op).succeeds p.1 = true := by
        simp [Call.succeeds, hok]
      rw [step, ha] at hwf
      have hs : booked self i p (.call ctx op) = (t,
          { p.2 with
            deposited := p.2.deposited + op.paidInBy i
            paid := p.2.paid + op.paidTo i p.1.store
            loss := p.2.loss + op.lossOfOthers self i p.1 }) := by
        simp [booked, watch, step, Account.note, ha, hsc]
      rw [hs]
      by_cases hop : op.isTrade = true
      · have ht := exec_trade hop h.wellFormed hok
        have hle := ht.account h.wellFormed hwf h.feeless i
        refine ⟨hwf, ht.feeless h.feeless, ?_⟩
        push_cast
        linarith
      · have hop' := Bool.eq_false_iff.mpr hop
        obtain ⟨hfs, hle⟩ :=
          (exec_effect h.wellFormed hok).reach hop' h.wellFormed hwf h.feeless hfe i
        obtain ⟨h₁, h₂, h₃⟩ := Op.quiet_of_not_trade hop' self i p.1
        refine ⟨hwf, hfs, ?_⟩
        simp only [h₁, h₂, h₃, add_zero]
        linarith
    · have hsc : (exec (honest self) ctx op).succeeds p.1 = false := by
        simp [Call.succeeds, hf]
      have hs : booked self i p (.call ctx op) = p := by
        simp [booked, watch, step, Account.note, ha, hsc]
      rwa [hs]

/-- A fresh deployment with nothing in it. -/
def unfunded (tokens : Ledger Address) : Sys World × Account :=
  (⟨.deployed, [], ⟨tokens, .empty⟩⟩, ⟨0, 0, 0, 0⟩)

theorem fair_unfunded {tokens : Ledger Address} (h : tokens self = 0) :
    Account.Fair self i (unfunded tokens) where
  wellFormed := deployed_wellFormed
  feeless := rfl
  bound := by
    have hr : Sys.reachOf self i (unfunded tokens).1 = 0 := by
      simp [Sys.reachOf, unfunded, Sys.hidden, Store.deployed, Store.pendingOf, Sys.stakeOf,
        SharePool.stake, SharePool.price, SharePool.unowned, Store.sharesOf, Sys.claimed, Sys.live,
        World.liveOn, Store.activeAddress, Store.activeInfo, Sys.pool, Sys.net, Sys.gross, Sys.idle,
        Store.liabilities, h]
    rw [hr]
    simp [unfunded]

/-- Without fees a depositor is paid at most what they paid in, what flowed in from outside, and
what rounding took from the others; so at most the first two while that is below one unit. -/
theorem payout_bounded {tokens : Ledger Address} {moves : List (Move Outside)}
    (htokens : tokens self = 0)
    (hfee : AllSteps (booked self i) (fun p m => NoFee self p.1 m) (unfunded tokens) moves) :
    AllStates (booked self i)
      (fun p => (p.2.paid : ℚ) ≤ p.2.deposited + p.2.earned + p.2.loss ∧
        (p.2.loss < 1 → p.2.paid ≤ p.2.deposited + p.2.earned)) (unfunded tokens) moves := by
  have hf := invariant_allStates (fun p m hp hm => fair_booked m hp hm)
    (fair_unfunded htokens) hfee
  refine hf.mono ?_
  intro p hp
  have hb := hp.bound
  have hr : 0 ≤ p.1.reachOf self i := reachOf_nonneg hp.wellFormed
  refine ⟨by linarith, ?_⟩
  intro hl
  have hlt : (p.2.paid : ℚ) < (p.2.deposited + p.2.earned + 1 : Int) := by
    push_cast
    linarith
  exact Int.lt_add_one_iff.mp (by exact_mod_cast hlt)

/-- Two depositors, fifty from outside between them, and the first one leaves with it. -/
def sharedRun : List (Move Outside) :=
  pricedRun ++ [.call ⟨0, [4]⟩ (.deposit 4 30), .call ⟨0, [3]⟩ (.requestWithdraw 3 100),
    .call ⟨0, [3]⟩ (.claimWithdraw 3 1)]

theorem payout_bounded_shared :
    AllStates (booked 0 3)
        (fun p => (p.2.paid : ℚ) ≤ p.2.deposited + p.2.earned + p.2.loss ∧
          (p.2.loss < 1 → p.2.paid ≤ p.2.deposited + p.2.earned))
        (unfunded (fun _ => 0)) sharedRun ∧
      let p := runFrom (booked 0 3) (unfunded (fun _ => 0)) sharedRun
      (p.2.paid, p.2.deposited, p.2.earned) = (150, 100, 50) :=
  ⟨payout_bounded rfl (by decide), by decide⟩

/-- The first depositor pays one in, makes it worth a hundred more, and takes half of what the next
depositor loses to rounding. -/
def inflatedRun : List (Move Outside) :=
  [.world (.wallet 3 1000), .world (.wallet 4 1000), .call ⟨0, []⟩ (.initializeAdapter 1 2 9),
    .call ⟨0, [3]⟩ (.deposit 3 1), .world (.donate 100), .call ⟨0, [4]⟩ (.deposit 4 150),
    .call ⟨0, [3]⟩ (.requestWithdraw 3 1), .call ⟨0, [3]⟩ (.claimWithdraw 3 1)]

theorem payout_inflated :
    AllSteps (booked 0 3) (fun p m => NoFee 0 p.1 m) (unfunded (fun _ => 0)) inflatedRun ∧
      let p := runFrom (booked 0 3) (unfunded (fun _ => 0)) inflatedRun
      (p.2.paid, p.2.deposited, p.2.earned) = (125, 1, 100) ∧
        ¬ p.2.paid ≤ p.2.deposited + p.2.earned ∧
        p.1 = run (honest 0) (outside 0) genesis inflatedRun :=
  ⟨by decide, by decide, by decide, runFrom_watch _ _ _ _⟩

end Stow.Adapter
