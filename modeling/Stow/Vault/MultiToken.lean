import Mathlib.Logic.Function.Basic
import Stow.Vault.Frame

/-! Savings in several tokens: the whitelist, the balances of each user, and conversions. -/
namespace Stow.Vault

open Stow.Lib Stow.Lib.Contract Call SortedMap

/-- What the module adds to the storage of the vault. -/
structure TokenStore where
  whitelist : Option (List Address)
  balances : SortedMap Address (SortedMap Address Int)
  rates : SortedMap (Address ×ₗ Address) Nat

abbrev TokenSys (W : Type) := State (Store × TokenStore) Event W

abbrev TokenAction (W α : Type) := Call Error (TokenSys W) α

/-- Until a list is stored, the primary token is the only entry. -/
def getWhitelist (st : Store × TokenStore) : List Address := st.2.whitelist.getD st.1.token.toList

def isWhitelisted (st : Store × TokenStore) (token : Address) : Bool := token ∈ getWhitelist st

def setWhitelist (whitelist : List Address) (st : Store × TokenStore) : Store × TokenStore :=
  (st.1, { st.2 with whitelist := some whitelist })

def getTokenBalances (st : Store × TokenStore) (owner : Address) : SortedMap Address Int :=
  (st.2.balances.get owner).getD .empty

def setTokenBalances (owner : Address) (balances : SortedMap Address Int)
    (st : Store × TokenStore) : Store × TokenStore :=
  (st.1, { st.2 with balances := st.2.balances.set owner balances })

/-- A record with no entry left is removed. -/
def putTokenBalances (owner : Address) (balances : SortedMap Address Int)
    (st : Store × TokenStore) : Store × TokenStore :=
  if balances.entries.length = 0 then
    (st.1, { st.2 with balances := st.2.balances.remove owner })
  else setTokenBalances owner balances st

/-- An entry that reaches zero is removed. -/
def lowered (balances : SortedMap Address Int) (token : Address) (newBalance : Int) :
    SortedMap Address Int :=
  if newBalance = 0 then balances.remove token else balances.set token newBalance

section

variable {W : Type} (H : Host W) (ctx : Ctx)

/-- A transfer of any token. The flag that guards the primary one is not set around it. -/
def transferToken (token source target : Address) (amount : Int) : Action W Unit :=
  lift (fun s => (H.transfer token source target amount s).map (fun t => ((), t))) .trap

def addToken (token : Address) : TokenAction W Unit := do
  enterAdmin H ctx
  let whitelist ← load getWhitelist
  if token ∈ whitelist then pure () else save (setWhitelist (whitelist ++ [token]))

def removeToken (token : Address) : TokenAction W Unit := do
  enterAdmin H ctx
  require ((← load (·.1.token)) ≠ some token) .invalidParameters
  let whitelist ← load getWhitelist
  require (token ∈ whitelist) .notFound
  save (setWhitelist (whitelist.filter (· ≠ token)))

def depositToken (source token : Address) (amount : Int) : TokenAction W Unit := do
  enter H ctx source
  require (0 < amount) .invalidAmount
  require ((← load (isWhitelisted · token)) = true) .invalidParameters
  zoom (transferToken H token source H.self amount)
  let balances ← load (getTokenBalances · source)
  let newBalance ← orFail (checkedAdd ((balances.get token).getD 0) amount) .overflow
  save (setTokenBalances source (balances.set token newBalance))

-- a token that has left the whitelist can still be withdrawn
def withdrawToken (owner token : Address) (amount : Int) : TokenAction W Unit := do
  enter H ctx owner
  require (0 < amount) .invalidAmount
  let balances ← orFail (← load (·.2.balances.get owner)) .notFound
  let current := (balances.get token).getD 0
  require (amount ≤ current) .insufficientBalance
  zoom (transferToken H token H.self owner amount)
  let newBalance ← orFail (checkedSub current amount) .overflow
  save (putTokenBalances owner (lowered balances token newBalance))

def setConversionRate (source target : Address) (rate : Nat) : TokenAction W Unit := do
  enterAdmin H ctx
  require (source ≠ target) .invalidParameters
  require ((← load (fun st => isWhitelisted st source && isWhitelisted st target)) = true)
    .invalidParameters
  save (fun st => (st.1, { st.2 with rates := st.2.rates.set (toLex (source, target)) rate }))

/-- Rates have six decimals. -/
def rateScale : Int := 1000000

/-- An entry of the books only: no token moves. -/
def convertBalance (owner source target : Address) (amount : Int) : TokenAction W Int := do
  enter H ctx owner
  require (0 < amount) .invalidAmount
  require (source ≠ target) .invalidParameters
  require ((← load (fun st => isWhitelisted st source && isWhitelisted st target)) = true)
    .invalidParameters
  let rate ← orFail (← load (·.2.rates.get (toLex (source, target)))) .notFound
  let scaled ← orFail (checkedMul amount rate) .overflow
  let converted ← orFail (checkedDiv scaled rateScale) .divisionByZero
  require (0 < converted) .invalidAmount
  let balances ← orFail (← load (·.2.balances.get owner)) .notFound
  let sourceBalance := (balances.get source).getD 0
  require (amount ≤ sourceBalance) .insufficientBalance
  let newSource ← orFail (checkedSub sourceBalance amount) .overflow
  let balances := lowered balances source newSource
  let newTarget ← orFail (checkedAdd ((balances.get target).getD 0) converted) .overflow
  save (setTokenBalances owner (balances.set target newTarget))
  pure converted

inductive TokenOp where
  | addToken (token : Address)
  | removeToken (token : Address)
  | depositToken (source token : Address) (amount : Int)
  | withdrawToken (owner token : Address) (amount : Int)
  | setConversionRate (source target : Address) (rate : Nat)
  | convertBalance (owner source target : Address) (amount : Int)
  deriving DecidableEq

def TokenOp.exec : TokenOp → TokenAction W Unit
  | .addToken token => Vault.addToken H ctx token
  | .removeToken token => Vault.removeToken H ctx token
  | .depositToken source token amount => Vault.depositToken H ctx source token amount
  | .withdrawToken owner token amount => Vault.withdrawToken H ctx owner token amount
  | .setConversionRate source target rate => Vault.setConversionRate H ctx source target rate
  | .convertBalance owner source target amount =>
    (Vault.convertBalance H ctx owner source target amount).void

end

/-! ### Runs over tokens that move exact amounts -/

/-- The ledger of every token. -/
abbrev Tokens := Address → Ledger Address

def exactEach (self : Address) : Host Tokens where
  self := self
  transfer token source target amount s :=
    ((s.world token).transfer source target amount).map
      (fun l => { s with world := Function.update s.world token l })
  updateWasm _ w := some w

/-- A call of the module, a setting of the vault it reads, or a transfer made by somebody else. -/
inductive TokenMove where
  | call (ctx : Ctx) (op : TokenOp)
  | setup (ctx : Ctx) (admin token : Address)
  | config (ctx : Ctx) (op : ConfigOp)
  | wallet (token source target : Address) (amount : Int)

def Tokens.wallet (w : Tokens) (self token source target : Address) (amount : Int) : Tokens :=
  if source = self then w
  else (((w token).transfer source target amount).map (Function.update w token)).getD w

def tokenStep (self : Address) (s : TokenSys Tokens) : TokenMove → TokenSys Tokens
  | .call ctx op => (op.exec (exactEach self) ctx).after s
  | .setup ctx admin token => (zoom (initializeVault ctx admin token)).after s
  | .config ctx op => (zoom (op.exec (exactEach self) ctx)).after s
  | .wallet token source target amount =>
    { s with world := s.world.wallet self token source target amount }

def TokenSys.deployed (tokens : Tokens) : TokenSys Tokens :=
  ⟨(Store.deployed, ⟨none, .empty, .empty⟩), [], tokens⟩

/-! ### The books and the holdings of each token -/

/-- What the books owe one user in one token. -/
def TokenStore.balanceOf (st : TokenStore) (owner token : Address) : Int :=
  (st.balances.get owner).elim 0 (fun balances => (balances.get token).getD 0)

/-- What the books owe all users in one token. -/
def TokenStore.recorded (st : TokenStore) (token : Address) : Int :=
  st.balances.sum (fun balances => (balances.get token).getD 0)

/-- What the vault holds of a token beyond what it owes in it. -/
def TokenSys.surplus (s : TokenSys Tokens) (vault token : Address) : Int :=
  s.world token vault - s.store.2.recorded token

/-- The vault holds what it owes, in every token. -/
def TokensBacked (self : Address) (s : TokenSys Tokens) : Prop :=
  ∀ token, s.store.2.recorded token ≤ s.world token self

/-- Every user can withdraw every part of every balance, as long as the vault is not paused. -/
def BalancesWithdrawable (self : Address) (s : TokenSys Tokens) : Prop :=
  s.store.1.paused = false → ∀ ctx owner token amount, owner ∈ ctx.auths → 0 < amount →
    amount ≤ s.store.2.balanceOf owner token →
      (withdrawToken (exactEach self) ctx owner token amount).succeeds s = true

/-- The amount at the rate of a conversion that succeeds is covered by what the vault holds of the
target beyond its debts. -/
def ConversionCovered (self : Address) (s : TokenSys Tokens) (e : TokenMove) : Prop :=
  ∀ ctx owner source target amount rate,
    e = .call ctx (.convertBalance owner source target amount) →
    (convertBalance (exactEach self) ctx owner source target amount).succeeds s = true →
    s.store.2.rates.get (toLex (source, target)) = some rate →
      amount * rate / rateScale ≤ s.surplus self target

variable {self : Address} {ctx : Ctx} {s t : TokenSys Tokens} {u : Unit}
  {owner source target token : Address} {amount : Int} {balances : SortedMap Address Int}
  {st : Store × TokenStore}

theorem get_lowered {newBalance : Int} (k : Address) :
    ((lowered balances token newBalance).get k).getD 0 =
      if k = token then newBalance else (balances.get k).getD 0 := by
  unfold lowered
  by_cases hz : newBalance = 0
  · rw [if_pos hz, get_remove]
    split_ifs with hk
    · exact hz.symm
    · rfl
  · rw [if_neg hz, get_set]
    split_ifs with hk <;> rfl

theorem balanceOf_of_get {st : TokenStore} (h : st.balances.get owner = some balances)
    (token : Address) : st.balanceOf owner token = (balances.get token).getD 0 := by
  rw [TokenStore.balanceOf, h, Option.elim_some]

theorem getTokenBalances_get (token : Address) :
    ((getTokenBalances st owner).get token).getD 0 = st.2.balanceOf owner token := by
  unfold getTokenBalances TokenStore.balanceOf
  cases st.2.balances.get owner <;> rfl

theorem recorded_setTokenBalances (k : Address) :
    (setTokenBalances owner balances st).2.recorded k =
      st.2.recorded k - st.2.balanceOf owner k + (balances.get k).getD 0 :=
  sum_set _ _ _ _

theorem recorded_putTokenBalances (k : Address) :
    (putTokenBalances owner balances st).2.recorded k =
      st.2.recorded k - st.2.balanceOf owner k + (balances.get k).getD 0 := by
  unfold putTokenBalances
  split_ifs with he
  · have hn : balances.get k = none := by
      unfold SortedMap.get
      rw [List.length_eq_zero_iff.mp he]
      rfl
    rw [hn]
    exact (sum_remove _ _ _).trans (add_zero _).symm
  · exact recorded_setTokenBalances k

theorem bind_transferToken {β : Type} {g : Unit → TokenAction Tokens β} {b : β} :
    (zoom (transferToken (exactEach self) token source target amount) >>= g) s = .ok (b, t) ↔
      ∃ l, (s.world token).transfer source target amount = some l ∧
        g () ⟨s.store, s.log, Function.update s.world token l⟩ = .ok (b, t) := by
  simp only [bind_zoom, transferToken, lift_ok, exactEach, Option.map_eq_some_iff,
    Prod.mk.injEq]
  constructor
  · rintro ⟨_, _, ⟨_, ⟨l, hl, rfl⟩, -, rfl⟩, h⟩
    exact ⟨l, hl, h⟩
  · rintro ⟨l, hl, h⟩
    exact ⟨(), _, ⟨_, ⟨l, hl, rfl⟩, trivial, rfl⟩, h⟩

/-! ### What a successful call paid and wrote -/

/-- The calls of the administrator. -/
def TokenOp.configures : TokenOp → Bool
  | .addToken _ | .removeToken _ | .setConversionRate _ _ _ => true
  | _ => false

theorem configures_ok {op : TokenOp} (hop : op.configures = true)
    (h : op.exec (exactEach self) ctx s = .ok (u, t)) :
    t.store.1 = s.store.1 ∧ t.store.2.balances = s.store.2.balances ∧ t.world = s.world := by
  cases op with
  | addToken token =>
    simp only [TokenOp.exec, addToken, bind_enterAdmin, bind_load] at h
    rcases ite_ok.mp h.2 with ⟨-, h⟩ | ⟨-, h⟩
    · obtain ⟨-, rfl⟩ := pure_ok.mp h
      exact ⟨rfl, rfl, rfl⟩
    · obtain rfl := save_ok.mp h
      exact ⟨rfl, rfl, rfl⟩
  | removeToken | setConversionRate =>
    simp only [TokenOp.exec, removeToken, setConversionRate, bind_enterAdmin, bind_rules] at h
    obtain ⟨-, -, -, rfl⟩ := h
    exact ⟨rfl, rfl, rfl⟩
  | _ => cases hop

theorem depositToken_ok (h : depositToken (exactEach self) ctx source token amount s = .ok (u, t)) :
    source ≠ self ∧ 0 < amount ∧ FitsI128 (s.store.2.balanceOf source token + amount) ∧
      (∃ l, (s.world token).transfer source self amount = some l ∧
        t.world = Function.update s.world token l) ∧
      t.store = setTokenBalances source ((getTokenBalances s.store source).set token
        (s.store.2.balanceOf source token + amount)) s.store := by
  simp only [depositToken, bind_enter, bind_transferToken, getTokenBalances_get, bind_rules] at h
  obtain ⟨⟨-, -, -, hsl⟩, hp, -, l, hl, _, ⟨hf, rfl⟩, rfl⟩ := h
  exact ⟨hsl, hp, hf, ⟨l, hl, rfl⟩, rfl⟩

theorem withdrawToken_ok :
    withdrawToken (exactEach self) ctx owner token amount s = .ok (u, t) ↔
      (s.store.1.paused = false ∧ s.store.1.tokenTransferActive = false ∧ owner ∈ ctx.auths ∧
        owner ≠ self) ∧ 0 < amount ∧ ∃ balances, s.store.2.balances.get owner = some balances ∧
      amount ≤ (balances.get token).getD 0 ∧
      ∃ l, (s.world token).transfer self owner amount = some l ∧
      FitsI128 ((balances.get token).getD 0 - amount) ∧
      ⟨putTokenBalances owner (lowered balances token ((balances.get token).getD 0 - amount))
        s.store, s.log, Function.update s.world token l⟩ = t := by
  simp only [withdrawToken, bind_enter, bind_transferToken, bind_rules]
  constructor
  · rintro ⟨he, hp, balances, hg, hle, l, hl, _, ⟨hf, rfl⟩, ht⟩
    exact ⟨he, hp, balances, hg, hle, l, hl, hf, ht⟩
  · rintro ⟨he, hp, balances, hg, hle, l, hl, hf, ht⟩
    exact ⟨he, hp, balances, hg, hle, l, hl, _, ⟨hf, rfl⟩, ht⟩

theorem convertBalance_ok {converted : Int}
    (h : convertBalance (exactEach self) ctx owner source target amount s = .ok (converted, t)) :
    owner ≠ self ∧ 0 < amount ∧ source ≠ target ∧ 0 < converted ∧
      (∃ rate, s.store.2.rates.get (toLex (source, target)) = some rate ∧
        converted = amount * rate / rateScale) ∧
      ∃ balances, s.store.2.balances.get owner = some balances ∧
      amount ≤ (balances.get source).getD 0 ∧
      FitsI128 ((balances.get source).getD 0 - amount) ∧
      FitsI128 ((balances.get target).getD 0 + converted) ∧
      t = ⟨setTokenBalances owner ((lowered balances source
        ((balances.get source).getD 0 - amount)).set target
          ((balances.get target).getD 0 + converted)) s.store, s.log, s.world⟩ := by
  simp only [convertBalance, bind_enter, get_lowered, checkedMul_some, checkedDiv_some,
    bind_rules] at h
  obtain ⟨⟨-, -, -, hsl⟩, hp, hne, -, rate, hr, _, ⟨-, rfl⟩, _, ⟨-, -, rfl⟩, hc, balances, hg, hle,
    _, ⟨hf, rfl⟩, _, ⟨hf', rfl⟩, rfl, rfl⟩ := h
  rw [if_neg hne.symm] at hf' ⊢
  have hd := Int.tdiv_eq_ediv_of_nonneg (b := rateScale)
    (mul_nonneg hp.le (Int.natCast_nonneg rate))
  exact ⟨hsl, hp, hne, hc, ⟨rate, hr, hd⟩, balances, hg, hle, hf, hf', rfl⟩

/-! ### The surplus of each token -/

theorem held_update {w : Tokens} {l : Ledger Address} {change : Int}
    (h : (l self : Int) = w token self + change) (k : Address) :
    (Function.update w token l k self : Int) = w k self + if k = token then change else 0 := by
  by_cases hk : k = token
  · subst hk
    rw [Function.update_self, if_pos rfl]
    exact h
  · rw [Function.update_of_ne hk, if_neg hk, add_zero]

theorem surplus_same (hb : t.store.2.balances = s.store.2.balances)
    (hw : t.world = s.world) (k : Address) : t.surplus self k = s.surplus self k := by
  unfold TokenSys.surplus TokenStore.recorded
  rw [hb, hw]

theorem depositToken_surplus
    (h : depositToken (exactEach self) ctx source token amount s = .ok (u, t)) (k : Address) :
    t.surplus self k = s.surplus self k := by
  obtain ⟨hsl, -, -, ⟨l, hl, hw⟩, hst⟩ := depositToken_ok h
  have hh := held_update (Ledger.transfer_target hl hsl) k
  unfold TokenSys.surplus
  rw [hw, hh, hst, recorded_setTokenBalances, get_set]
  split_ifs with hk
  · rw [Option.getD_some, hk]
    omega
  · rw [getTokenBalances_get]
    omega

theorem withdrawToken_surplus
    (h : withdrawToken (exactEach self) ctx owner token amount s = .ok (u, t)) (k : Address) :
    t.surplus self k = s.surplus self k := by
  obtain ⟨⟨-, -, -, hsl⟩, -, balances, hg, -, l, hl, -, rfl⟩ := withdrawToken_ok.mp h
  have hh := held_update (Ledger.transfer_source hl hsl.symm) k
  unfold TokenSys.surplus
  rw [hh, recorded_putTokenBalances, get_lowered, balanceOf_of_get hg]
  split_ifs with hk
  · rw [hk]
    omega
  · omega

section

variable {converted : Int}
  (h : convertBalance (exactEach self) ctx owner source target amount s = .ok (converted, t))

include h

theorem convertBalance_balanceOf (k : Address) :
    t.store.2.balanceOf owner k = s.store.2.balanceOf owner k -
      (if k = source then amount else 0) + if k = target then converted else 0 := by
  obtain ⟨-, -, hne, -, -, balances, hg, -, -, -, rfl⟩ := convertBalance_ok h
  rw [balanceOf_of_get (get_set_self _ _ _), balanceOf_of_get hg, get_set]
  by_cases ht : k = target
  · rw [if_pos ht, if_pos ht, if_neg (fun hk => hne (hk.symm.trans ht)), ht]
    simp
  · rw [if_neg ht, if_neg ht, get_lowered]
    split_ifs with hk
    · rw [hk]
      omega
    · omega

/-- A conversion moves the debt from one token to the other, and nothing else moves. -/
theorem convertBalance_surplus (k : Address) : t.surplus self k = s.surplus self k +
      (if k = source then amount else 0) - if k = target then converted else 0 := by
  have hb := convertBalance_balanceOf h k
  obtain ⟨-, -, -, -, -, balances, -, -, -, -, rfl⟩ := convertBalance_ok h
  rw [balanceOf_of_get (get_set_self _ _ _)] at hb
  unfold TokenSys.surplus
  rw [recorded_setTokenBalances, hb]
  ring

end

/-! ### What holds of the books in every run -/

/-- No transfer is under way, the vault owes nothing to itself, and every entry is positive. -/
structure TokenSys.Sound (vault : Address) (s : TokenSys Tokens) : Prop where
  idle : s.store.1.tokenTransferActive = false
  owners : s.store.2.balances.Forall (fun owner _ => owner ≠ vault)
  amounts : s.store.2.balances.Forall
    (fun _ balances => balances.Forall (fun _ amount => 0 < amount ∧ FitsI128 amount))

theorem TokenSys.Sound.same (hs : s.Sound self)
    (hi : t.store.1.tokenTransferActive = s.store.1.tokenTransferActive)
    (hb : t.store.2.balances = s.store.2.balances) : t.Sound self where
  idle := hi.trans hs.idle
  owners := hb ▸ hs.owners
  amounts := hb ▸ hs.amounts

section

variable (hs : s.Sound self) (ho : owner ≠ self)
  (ham : balances.Forall (fun _ amount => 0 < amount ∧ FitsI128 amount))

include hs ho ham

theorem TokenSys.Sound.set (hst : t.store = setTokenBalances owner balances s.store) :
    t.Sound self where
  idle := hst ▸ hs.idle
  owners := hst ▸ hs.owners.set ho
  amounts := hst ▸ hs.amounts.set ham

theorem TokenSys.Sound.put (hst : t.store = putTokenBalances owner balances s.store) :
    t.Sound self := by
  unfold putTokenBalances at hst
  split_ifs at hst
  · exact ⟨hst ▸ hs.idle, hst ▸ hs.owners.remove, hst ▸ hs.amounts.remove⟩
  · exact hs.set ho ham hst

end

theorem lowered_forall (ham : balances.Forall (fun _ amount => 0 < amount ∧ FitsI128 amount))
    (hle : amount ≤ (balances.get token).getD 0)
    (hf : FitsI128 ((balances.get token).getD 0 - amount)) :
    (lowered balances token ((balances.get token).getD 0 - amount)).Forall
      (fun _ amount => 0 < amount ∧ FitsI128 amount) := by
  unfold lowered
  split_ifs with hz
  · exact ham.remove
  · exact ham.set ⟨by omega, hf⟩

theorem balanceOf_nonneg (hs : s.Sound self) (owner token : Address) :
    0 ≤ s.store.2.balanceOf owner token := by
  unfold TokenStore.balanceOf
  cases hg : s.store.2.balances.get owner with
  | none => exact le_refl _
  | some balances =>
    cases ha : balances.get token with
    | none => simp [ha]
    | some amount =>
      have hp := (hs.amounts owner balances hg token amount ha).1
      simpa [ha] using hp.le

theorem exec_tokens_sound {op : TokenOp} (hs : s.Sound self)
    (h : op.exec (exactEach self) ctx s = .ok (u, t)) : t.Sound self := by
  cases op with
  | addToken | removeToken | setConversionRate =>
    obtain ⟨hv, hb, -⟩ := configures_ok rfl h
    exact hs.same (by rw [hv]) hb
  | depositToken source token amount =>
    obtain ⟨hsl, hp, hf, -, hst⟩ := depositToken_ok h
    refine hs.set hsl ?_ hst
    have hnn := balanceOf_nonneg hs source token
    have hold : (getTokenBalances s.store source).Forall
        (fun _ amount => 0 < amount ∧ FitsI128 amount) := by
      unfold getTokenBalances
      cases hg : s.store.2.balances.get source with
      | none => exact .empty
      | some balances => exact hs.amounts source balances hg
    exact hold.set ⟨by omega, hf⟩
  | withdrawToken owner token amount =>
    obtain ⟨⟨-, -, -, hsl⟩, -, balances, hg, hle, l, -, hf, rfl⟩ := withdrawToken_ok.mp h
    exact hs.put hsl (lowered_forall (hs.amounts owner balances hg) hle hf) rfl
  | convertBalance owner source target amount =>
    obtain ⟨converted, h⟩ := of_void h
    obtain ⟨hsl, -, -, hc, -, balances, hg, hle, hf, hf', rfl⟩ := convertBalance_ok h
    have hnn := balanceOf_nonneg hs owner target
    rw [balanceOf_of_get hg] at hnn
    refine hs.set hsl ?_ rfl
    exact (lowered_forall (hs.amounts owner balances hg) hle hf).set ⟨by omega, hf'⟩

/-- Nothing is written to the books, and the vault loses no tokens. -/
structure TokenSys.Quiet (vault : Address) (s t : TokenSys Tokens) : Prop where
  idle : t.store.1.tokenTransferActive = s.store.1.tokenTransferActive
  books : t.store.2 = s.store.2
  held : ∀ token, s.world token vault ≤ t.world token vault

theorem TokenSys.Quiet.refl (s : TokenSys Tokens) : s.Quiet self s :=
  ⟨rfl, rfl, fun _ => le_refl _⟩

theorem config_quiet {op : ConfigOp}
    (h : zoom (op.exec (exactEach self) ctx) s = .ok (u, t)) : s.Quiet self t := by
  obtain ⟨v, he, rfl⟩ := zoom_ok.mp h
  obtain ⟨hw, hwr⟩ := ConfigOp.exec_effect he
  have hsm : v.world = s.world := by
    rcases hwr with hwr | ⟨code, hc⟩
    · exact hwr
    · exact (Option.some.inj hc).symm
  refine ⟨?_, rfl, fun token => (congrFun (congrFun hsm token) self).ge⟩
  exact hw.view (f := fun st => st.tokenTransferActive) (fun d state => by cases op <;> rfl)

theorem setup_quiet {admin token : Address}
    (h : zoom (initializeVault ctx admin token) s = .ok (u, t)) : s.Quiet self t := by
  obtain ⟨v, he, rfl⟩ := zoom_ok.mp h
  obtain ⟨-, hst, hw⟩ := initializeVault_ok he
  refine ⟨?_, rfl, fun token => (congrFun (congrFun hw token) self).ge⟩
  rw [hst]
  rfl

theorem wallet_quiet (s : TokenSys Tokens) (token source target : Address) (amount : Int) :
    s.Quiet self (tokenStep self s (.wallet token source target amount)) := by
  refine ⟨rfl, rfl, fun k => ?_⟩
  simp only [tokenStep, Tokens.wallet]
  split_ifs with hsl
  · exact le_refl _
  · cases hl : (s.world token).transfer source target amount with
    | none => exact le_refl _
    | some l =>
      simp only [Option.map_some, Option.getD_some]
      by_cases hk : k = token
      · subst hk
        rw [Function.update_self]
        exact Ledger.le_of_transfer hl (Ne.symm hsl)
      · rw [Function.update_of_ne hk]

/-- A step is a successful call of the module, or it is quiet. -/
theorem tokenStep_cases (self : Address) (s : TokenSys Tokens) (e : TokenMove) :
    (∃ ctx op u t, e = .call ctx op ∧ op.exec (exactEach self) ctx s = .ok (u, t) ∧
        tokenStep self s e = t) ∨
      (s.Quiet self (tokenStep self s e) ∧
        ∀ ctx op u t, e = .call ctx op → op.exec (exactEach self) ctx s ≠ .ok (u, t)) := by
  cases e with
  | call ctx op =>
    rcases after_cases (op.exec (exactEach self) ctx) s with
      ⟨u, t, hok, ht⟩ | ⟨⟨fault, hf⟩, ht⟩
    · exact .inl ⟨ctx, op, u, t, rfl, hok, ht⟩
    · refine .inr ⟨?_, ?_⟩
      · simp only [tokenStep, ht]
        exact .refl s
      · rintro _ _ u t ⟨rfl, rfl⟩ hok
        cases hf.symm.trans hok
  | setup ctx admin token =>
    refine .inr ⟨?_, fun _ _ _ _ => TokenMove.noConfusion⟩
    exact after_induction (P := s.Quiet self) (.refl s) (fun _ _ => setup_quiet)
  | config ctx op =>
    refine .inr ⟨?_, fun _ _ _ _ => TokenMove.noConfusion⟩
    exact after_induction (P := s.Quiet self) (.refl s) (fun _ _ => config_quiet)
  | wallet token source target amount =>
    exact .inr ⟨wallet_quiet s token source target amount, fun _ _ _ _ => TokenMove.noConfusion⟩

theorem tokens_sound_step (s : TokenSys Tokens) (e : TokenMove) (hs : s.Sound self) :
    (tokenStep self s e).Sound self := by
  rcases tokenStep_cases self s e with ⟨ctx, op, u, t, -, hok, ht⟩ | ⟨hq, -⟩
  · exact ht ▸ exec_tokens_sound hs hok
  · exact hs.same hq.idle (by rw [hq.books])

theorem tokens_sound_deployed (self : Address) (tokens : Tokens) :
    (TokenSys.deployed tokens).Sound self :=
  ⟨rfl, .empty, .empty⟩

/-! ### Backing along a run -/

theorem backed_iff_surplus : TokensBacked self s ↔ ∀ token, 0 ≤ s.surplus self token :=
  forall_congr' (fun _ => Int.sub_nonneg.symm)

/-- Only a conversion can take the surplus of a token below zero. -/
theorem exec_backed_iff {op : TokenOp} (hs : TokensBacked self s)
    (h : op.exec (exactEach self) ctx s = .ok (u, t)) :
    TokensBacked self t ↔ ConversionCovered self s (.call ctx op) := by
  rw [backed_iff_surplus] at hs ⊢
  have hsm (hsr : ∀ k, t.surplus self k = s.surplus self k) (k) : 0 ≤ t.surplus self k :=
    hsr k ▸ hs k
  cases op with
  | addToken | removeToken | setConversionRate =>
    obtain ⟨-, hb, hw⟩ := configures_ok rfl h
    exact iff_of_true (hsm (surplus_same hb hw)) (by rintro _ _ _ _ _ _ ⟨⟩)
  | depositToken source token amount =>
    exact iff_of_true (hsm (depositToken_surplus h)) (by rintro _ _ _ _ _ _ ⟨⟩)
  | withdrawToken owner token amount =>
    exact iff_of_true (hsm (withdrawToken_surplus h)) (by rintro _ _ _ _ _ _ ⟨⟩)
  | convertBalance owner source target amount =>
    obtain ⟨converted, h⟩ := of_void h
    have hsr := convertBalance_surplus h
    obtain ⟨-, hp, hne, -, ⟨rate, hr, rfl⟩, -⟩ := convertBalance_ok h
    constructor
    · rintro ha _ _ _ _ _ rate' ⟨⟩ - hr'
      obtain rfl : rate = rate' := Option.some.inj (hr.symm.trans hr')
      have ht := hsr target
      rw [if_neg hne.symm, if_pos rfl] at ht
      have := ha target
      omega
    · intro hcv k
      have hle := hcv ctx owner source target amount rate rfl (succeeds_of_ok h) hr
      have hk := hs k
      rw [hsr k]
      by_cases ht : k = target
      · subst ht
        omega
      · split_ifs <;> omega

theorem tokens_backed_step (s : TokenSys Tokens) (e : TokenMove) (_ : s.Sound self)
    (hs : TokensBacked self s) :
    TokensBacked self (tokenStep self s e) ↔ ConversionCovered self s e := by
  rcases tokenStep_cases self s e with ⟨ctx, op, u, t, rfl, hok, ht⟩ | ⟨hq, hf⟩
  · rw [ht]
    exact exec_backed_iff hs hok
  · refine iff_of_true ?_ ?_
    · intro token
      rw [hq.books]
      have hh := hq.held token
      have := hs token
      omega
    · rintro ctx owner source target amount rate rfl hc
      obtain ⟨converted, hc⟩ := ok_of_succeeds hc
      exact absurd (void_ok.mpr ⟨converted, hc⟩) (hf ctx _ () _ rfl)

/-- A backed vault pays every balance it records. -/
theorem backed_withdrawable (hs : s.Sound self) (hb : TokensBacked self s) :
    BalancesWithdrawable self s := by
  intro hp ctx owner token amount hsg hps hle
  cases hg : s.store.2.balances.get owner with
  | none =>
    simp only [TokenStore.balanceOf, hg, Option.elim] at hle
    omega
  | some balances =>
    have he := hs.amounts owner balances hg
    rw [balanceOf_of_get hg] at hle
    have hft : FitsI128 ((balances.get token).getD 0) := by
      cases ha : balances.get token with
      | none => exact show FitsI128 0 by decide
      | some amount => exact (he token amount ha).2
    -- the entry is one term of what the vault owes in this token
    have ht : (balances.get token).getD 0 ≤ s.store.2.recorded token := by
      refine le_sum (f := fun balances => (balances.get token).getD 0) ?_ hg
      intro k m hk
      exact balanceOf_of_get hk token ▸ balanceOf_nonneg hs k token
    have hh := hb token
    have hf : amount ≤ s.world token self := by omega
    obtain ⟨l, hl⟩ := Ledger.transfer_isSome owner hps.le hf
    exact succeeds_of_ok (a := ()) (withdrawToken_ok.mpr
      ⟨⟨hp, hs.idle, hsg, hs.owners owner balances hg⟩, hps, balances, hg, hle, l, hl,
        hft.of_le (by omega) (by omega), rfl⟩)

/-- The vault is backed in every token throughout a run exactly when every conversion that
succeeds is covered, and a backed vault pays every balance. -/
theorem token_backing_iff (self : Address) (tokens : Tokens) (es : List TokenMove) :
    (AllStates (tokenStep self) (TokensBacked self) (.deployed tokens) es ↔
      AllSteps (tokenStep self) (ConversionCovered self) (.deployed tokens) es) ∧
    AllStates (tokenStep self) (fun s => TokensBacked self s → BalancesWithdrawable self s)
      (.deployed tokens) es := by
  have hsn : (TokenSys.deployed tokens).Sound self := tokens_sound_deployed self tokens
  constructor
  · refine allStates_iff_allSteps (J := fun s => s.Sound self) tokens_sound_step tokens_backed_step
      hsn ?_
    intro token
    exact Int.natCast_nonneg _
  · have ha : AllStates (tokenStep self) (fun s => s.Sound self) (.deployed tokens) es :=
      invariant_allStates (fun s e hs _ => tokens_sound_step s e hs) hsn (AllSteps.trivial es)
    exact ha.mono (fun s hs => backed_withdrawable hs)

/-- Savings in the primary token 9 become savings in the token 8, of which the vault has none. -/
def conversionRun : List TokenMove :=
  [.setup ⟨10, 1, [1]⟩ 1 9, .call ⟨20, 2, [1]⟩ (.addToken 8),
    .call ⟨30, 3, [1]⟩ (.setConversionRate 9 8 1000000),
    .call ⟨40, 4, [2]⟩ (.depositToken 2 9 500),
    .call ⟨50, 5, [2]⟩ (.convertBalance 2 9 8 500)]

/-- The vault owes 500 of a token it holds none of, and cannot pay them. -/
theorem conversionRun_unbacked :
    let s := runFrom (tokenStep 0) (.deployed (fun _ => purse)) conversionRun
    s.world 8 0 < s.store.2.recorded 8 ∧ s.store.2.balanceOf 2 8 = 500 ∧
      (withdrawToken (exactEach 0) ⟨60, 6, [2]⟩ 2 8 500).succeeds s = false := by
  decide +kernel

end Stow.Vault
