import Stow.Vault.Frame

/-! Who may act for whom along every run, and how a delegate's deposit compares with the owner's. -/
namespace Stow.Vault

open Stow.Lib Stow.Lib.Contract Call

/-! ### The history of delegation -/

/-- A delegation action that succeeded, with the level and expiry it granted. A revocation grants
nothing. -/
structure Grant where
  owner : Address
  delegate : Address
  granted : Option (PermissionLevel × Option Nat)
  deriving Repr, DecidableEq

def ConfigOp.grant : ConfigOp → Option Grant
  | .delegateSavings owner delegate level expiresAt
  | .updateDelegation owner delegate level expiresAt =>
    some ⟨owner, delegate, some (level, expiresAt)⟩
  | .revokeDelegation owner delegate => some ⟨owner, delegate, none⟩
  | _ => none

def Op.grant : Op → Option Grant
  | .config op => op.grant
  | _ => none

/-- Keeps the delegation actions that succeeded, the latest first. -/
def grantNote (self : Address) (s : Sys World) (e : Move) (past : List Grant) : List Grant :=
  match e with
  | .call ctx op =>
    match op.exec (exact self) ctx s with
    | .ok _ => op.grant.toList ++ past
    | .error _ => past
  | .wallet _ _ _ => past

/-- The most recent action of the owner towards the delegate. -/
def latestGrant (past : List Grant) (owner delegate : Address) : Option Grant :=
  past.find? (fun g => g.owner = owner ∧ g.delegate = delegate)

/-- The most recent action granted enough, for long enough. -/
def Authorized (past : List Grant) (owner delegate : Address) (required : PermissionLevel)
    (now : Nat) : Prop :=
  ∃ g level expiresAt, latestGrant past owner delegate = some g ∧
    g.granted = some (level, expiresAt) ∧ required.rank ≤ level.rank ∧
    ∀ expiry, expiresAt = some expiry → now < expiry

/-- What a delegated deposit does: the delegate pays, the owner's account grows, and nothing else
changes. -/
structure DelegatedDeposit (vault delegate owner : Address) (amount : Int) (now : Nat)
    (s t : Sys World) : Prop where
  distinct : delegate ≠ owner
  store : t.store = s.store.setFlexible owner
    { s.store.flexibleOf owner now with
      balance := (s.store.flexibleOf owner now).balance + amount, updatedAt := now }
  journal : t.world.journal = s.world.journal ++ [⟨delegate, vault, amount⟩]
  debited : (t.world.tokens delegate : Int) = s.world.tokens delegate - amount
  others : ∀ a, a ≠ delegate → s.world.tokens a ≤ t.world.tokens a

/-- What a delegated withdrawal does: the owner's account shrinks, the owner is paid, and nothing
else changes. -/
structure DelegatedWithdraw (vault delegate owner : Address) (amount : Int) (now : Nat)
    (s t : Sys World) : Prop where
  distinct : delegate ≠ owner
  store : ∃ account, s.store.flexible.get owner = some account ∧ amount ≤ account.balance ∧
    t.store = s.store.setFlexible owner
      { account with balance := account.balance - amount, updatedAt := now }
  journal : t.world.journal = s.world.journal ++ [⟨vault, owner, amount⟩]
  paid : (t.world.tokens owner : Int) = s.world.tokens owner + amount
  others : ∀ a, a ≠ owner → t.world.tokens a ≤ s.world.tokens a

/-- A delegated call that succeeds was authorized, and moves only what it should. -/
def DelegatedSafe (self : Address) (p : Sys World × List Grant) (e : Move) : Prop :=
  match e with
  | .call ctx (.delegatedDeposit delegate owner amount) =>
    ∀ u t, delegatedDeposit (exact self) ctx delegate owner amount p.1 = .ok (u, t) →
      Authorized p.2 owner delegate .deposit ctx.now ∧
        DelegatedDeposit self delegate owner amount ctx.now p.1 t
  | .call ctx (.delegatedWithdraw delegate owner amount) =>
    ∀ u t, delegatedWithdraw (exact self) ctx delegate owner amount p.1 = .ok (u, t) →
      Authorized p.2 owner delegate .full ctx.now ∧
        DelegatedWithdraw self delegate owner amount ctx.now p.1 t
  | _ => True

/-! ### The stored delegations are the latest grants -/

def Delegation.terms (d : Delegation) : PermissionLevel × Option Nat := (d.level, d.expiresAt)

/-- What is stored for each pair is what its latest action granted, and the pairs are of two
parties, the owner not being the vault. -/
structure Grants (vault : Address) (p : Sys World × List Grant) : Prop where
  latest : ∀ owner delegate,
    (p.1.store.delegations.get (toLex (owner, delegate))).map Delegation.terms =
      (latestGrant p.2 owner delegate).bind (·.granted)
  parties : ∀ owner delegate d, p.1.store.delegations.get (toLex (owner, delegate)) = some d →
    owner ≠ delegate ∧ owner ≠ vault

variable {ctx : Ctx} {self : Address} {s t : Sys World} {u : Unit} {op : Op} {past : List Grant}

theorem latestGrant_cons (g : Grant) (past : List Grant) (owner delegate : Address) :
    latestGrant (g :: past) owner delegate =
      if toLex (owner, delegate) = toLex (g.owner, g.delegate) then some g
      else latestGrant past owner delegate := by
  simp only [latestGrant, List.find?_cons, toLex_inj, Prod.mk.injEq]
  by_cases h : g.owner = owner ∧ g.delegate = delegate
  · rw [if_pos ⟨h.1.symm, h.2.symm⟩, decide_eq_true h]
  · rw [if_neg (fun h' => h ⟨h'.1.symm, h'.2.symm⟩), decide_eq_false h]

section

variable (hp : Grants self (s, past))

include hp

/-- Storing what was granted. -/
theorem Grants.set {owner delegate : Address} {d : Delegation} (hd : owner ≠ delegate)
    (hsl : owner ≠ self)
    (hs : t.store.delegations = s.store.delegations.set (toLex (owner, delegate)) d) :
    Grants self (t, ⟨owner, delegate, some d.terms⟩ :: past) where
  latest o e := by
    rw [latestGrant_cons, hs, SortedMap.get_set]
    split_ifs
    · rfl
    · exact hp.latest o e
  parties o e d' hg := by
    rw [hs, SortedMap.get_set] at hg
    split_ifs at hg with hpr
    · rw [toLex_inj, Prod.mk.injEq] at hpr
      obtain ⟨rfl, rfl⟩ := hpr
      exact ⟨hd, hsl⟩
    · exact hp.parties o e d' hg

/-- Removing what was revoked. -/
theorem Grants.remove {owner delegate : Address}
    (hs : t.store.delegations = s.store.delegations.remove (toLex (owner, delegate))) :
    Grants self (t, ⟨owner, delegate, none⟩ :: past) where
  latest o e := by
    rw [latestGrant_cons, hs, SortedMap.get_remove]
    split_ifs
    · rfl
    · exact hp.latest o e
  parties o e d hg := by
    rw [hs, SortedMap.get_remove] at hg
    split_ifs at hg
    exact hp.parties o e d hg

theorem Grants.same (hs : t.store.delegations = s.store.delegations) :
    Grants self (t, past) where
  latest := hs ▸ hp.latest
  parties := hs ▸ hp.parties

theorem grants_config {op : ConfigOp} (h : op.Writes self ctx s.store t.store) :
    Grants self (t, op.grant.toList ++ past) := by
  cases op with
  | delegateSavings owner delegate level expiresAt =>
    obtain ⟨hs, hd, hst⟩ := h
    exact hp.set hd hs (congrArg Store.delegations hst)
  | updateDelegation owner delegate level expiresAt =>
    obtain ⟨d, hg, hst⟩ := h
    -- the pair already stood in the table
    obtain ⟨hd, hs⟩ := hp.parties owner delegate d hg
    exact hp.set hd hs (congrArg Store.delegations hst)
  | revokeDelegation owner delegate => exact hp.remove (congrArg Store.delegations h)
  | _ => exact hp.same (h.delegations rfl)

theorem grants_call (h : op.exec (exact self) ctx s = .ok (u, t)) :
    Grants self (t, op.grant.toList ++ past) := by
  cases op with
  | config op => exact grants_config hp (ConfigOp.exec_writes h).1
  | _ => exact hp.same ((exec_frame h).delegations rfl)

end

theorem grants_step (p : Sys World × List Grant) (e : Move) (hp : Grants self p) :
    Grants self (watch (step self) (grantNote self) p e) :=
  watch_induction (P := fun _ _ => True)
    (fun hp _ h => by simpa only [grantNote, h] using grants_call hp h)
    (fun h => by simp only [grantNote, h]) (fun hp => hp.same rfl) p e hp trivial

/-! ### What a delegated call rests on -/

/-- A stored delegation that is live is a latest grant that is. -/
theorem Grants.authorized (hp : Grants self (s, past)) {owner delegate : Address}
    {required : PermissionLevel} {d : Delegation}
    (hgt : s.store.delegations.get (toLex (owner, delegate)) = some d)
    (hlv : d.expiresAt.all (ctx.now < ·)) (hr : required.rank ≤ d.level.rank) :
    Authorized past owner delegate required ctx.now := by
  have hl := hp.latest owner delegate
  rw [hgt] at hl
  obtain ⟨g, hg, hgr⟩ := Option.bind_eq_some_iff.mp hl.symm
  refine ⟨g, d.level, d.expiresAt, hg, hgr, hr, ?_⟩
  intro expiry he
  simpa [he] using hlv

theorem delegatedDeposit_safe (hp : Grants self (s, past)) {delegate owner : Address}
    {amount : Int} (h : delegatedDeposit (exact self) ctx delegate owner amount s = .ok (u, t)) :
    Authorized past owner delegate .deposit ctx.now ∧
      DelegatedDeposit self delegate owner amount ctx.now s t := by
  obtain ⟨hne, hps, _, rfl, ⟨d, hg, hl, hr⟩, hw, -, hs⟩ := delegatedDeposit_ok h
  refine ⟨hp.authorized hg hl hr, (hp.parties owner delegate d hg).1.symm, hs,
    World.pay_journal hw, World.pay_source hw hne, ?_⟩
  intro a ha
  exact World.pay_le_of_ne_source hw ha

theorem delegatedWithdraw_safe (hp : Grants self (s, past)) {delegate owner : Address}
    {amount : Int} (h : delegatedWithdraw (exact self) ctx delegate owner amount s = .ok (u, t)) :
    Authorized past owner delegate .full ctx.now ∧
      DelegatedWithdraw self delegate owner amount ctx.now s t := by
  obtain ⟨hps, d, account, ⟨hg, hl, hr⟩, hac, hle, hw, -, hst⟩ := delegatedWithdraw_ok h
  obtain ⟨hd, hs⟩ := hp.parties owner delegate d hg
  refine ⟨hp.authorized hg hl hr, hd.symm, ⟨account, hac, hle, hst⟩,
    World.pay_journal hw, World.pay_target hw hs.symm, ?_⟩
  intro a ha
  exact World.pay_le_of_ne_target hw ha

theorem delegated_safe (p : Sys World × List Grant) (e : Move) (hp : Grants self p) :
    DelegatedSafe self p e := by
  obtain ⟨s, past⟩ := p
  cases e with
  | wallet source target amount => trivial
  | call ctx op =>
    cases op with
    | delegatedDeposit delegate owner amount =>
      intro u t h
      exact delegatedDeposit_safe hp h
    | delegatedWithdraw delegate owner amount =>
      intro u t h
      exact delegatedWithdraw_safe hp h
    | _ => trivial

/-- Along every run a delegated call succeeds only on the latest action of the owner towards the
delegate, and touches the wallet and the account it names only. -/
theorem delegation_authority (self : Address) (tokens : Ledger Address) (es : List Move) :
    AllSteps (watch (step self) (grantNote self)) (DelegatedSafe self) (.deployed tokens, [])
      es := by
  have hs : Grants self (.deployed tokens, []) := ⟨fun _ _ => rfl, nofun⟩
  exact invariant_allSteps (fun p e hp _ => grants_step p e hp)
    (fun p e hp _ => delegated_safe p e hp) hs (.trivial es)

/-! ### A delegate's deposit against the owner's -/

/-- The checks that both kinds of deposit make of the vault and the account. -/
structure Store.AcceptsDeposit (st : Store) (owner : Address) (amount : Int) (now : Nat) :
    Prop where
  settled : st.tokenTransferActive = false
  running : st.paused = false
  token : st.token ≠ none
  positive : 0 < amount
  minimum : ¬(0 < st.minDeposit ∧ amount < st.minDeposit)
  fits : FitsI128 ((st.flexibleOf owner now).balance + amount)
  cap : ¬(0 < st.depositCap ∧ st.depositCap < (st.flexibleOf owner now).balance + amount)

/-- Owner and delegate both signed and can both pay, and the delegation is live. -/
structure BothMayDeposit (vault : Address) (ctx : Ctx) (delegate owner : Address) (amount : Int)
    (s : Sys World) : Prop where
  delegation : ∃ d, s.store.delegations.get (toLex (owner, delegate)) = some d ∧
    d.expiresAt.all (ctx.now < ·) ∧ PermissionLevel.deposit.rank ≤ d.level.rank
  delegateSigned : delegate ∈ ctx.auths ∧ delegate ≠ vault
  ownerSigned : owner ∈ ctx.auths ∧ owner ≠ vault
  delegatePays : amount ≤ s.world.tokens delegate
  ownerPays : amount ≤ s.world.tokens owner

/-- The two deposits succeed together, and then leave the owner's account, the insurance fund and
the tokens of the vault the same. -/
def DepositsAgree (self : Address) (ctx : Ctx) (delegate owner : Address) (amount : Int)
    (s : Sys World) : Prop :=
  ((delegatedDeposit (exact self) ctx delegate owner amount).succeeds s =
      (deposit (exact self) ctx owner amount).succeeds s) ∧
    ∀ u t u' t', delegatedDeposit (exact self) ctx delegate owner amount s = .ok (u, t) →
      deposit (exact self) ctx owner amount s = .ok (u', t') →
      t.store.flexible.get owner = t'.store.flexible.get owner ∧
        t.store.insuranceFundBalance = t'.store.insuranceFundBalance ∧
        t.world.held self = t'.world.held self

variable {delegate owner : Address} {amount : Int}

theorem World.pay_isSome {w : World} {source : Address} (target : Address) (h₀ : 0 ≤ amount)
    (h : amount ≤ w.tokens source) : ∃ w', w.pay source target amount = some w' := by
  obtain ⟨l, hl⟩ := Ledger.transfer_isSome target h₀ h
  exact ⟨_, by simp only [World.pay, hl, Option.map_some]; rfl⟩

theorem delegatedDeposit_succeeds (hm : BothMayDeposit self ctx delegate owner amount s) :
    (delegatedDeposit (exact self) ctx delegate owner amount).succeeds s = true ↔
      s.store.AcceptsDeposit owner amount ctx.now := by
  obtain ⟨d, hd⟩ := hm.delegation
  constructor
  · intro h
    have hok := after_of_succeeds h
    simp only [delegatedDeposit, transferIn, bind_checkDelegation, entry_rules] at hok
    obtain ⟨hs, hr, -, hps, _, -, hmn, _, ⟨hf, rfl⟩, hc, ⟨-, ht, -⟩, -⟩ :=
      hok
    exact ⟨hs, hr, ht, hps, hmn, hf, hc⟩
  · intro h
    obtain ⟨w, hw⟩ := World.pay_isSome self h.positive.le hm.delegatePays
    apply succeeds_of_ok (a := ())
    simp only [delegatedDeposit, transferIn, bind_checkDelegation, entry_rules]
    exact ⟨h.settled, h.running, hm.delegateSigned, h.positive, d, hd, h.minimum, _,
      ⟨h.fits, rfl⟩, h.cap, ⟨h.positive, h.token, h.settled⟩, w, hw, rfl⟩

theorem deposit_accepts (h : deposit (exact self) ctx owner amount s = .ok (u, t)) :
    s.store.AcceptsDeposit owner amount ctx.now ∧ s.store.emergencyMode = false := by
  simp only [deposit, transferIn, entry_rules] at h
  obtain ⟨hs, hr, hc, -, hps, hm, _, ⟨hf, rfl⟩, hcp, ⟨-, ht, -⟩, -⟩ := h
  exact ⟨⟨hs, hr, ht, hps, hm, hf, hcp⟩, hc⟩

theorem bpsPart_eq_zero {bps : Nat} (h₀ : 0 ≤ amount) :
    bpsPart bps amount = 0 ↔ amount * bps < 10000 := by
  have hnn : 0 ≤ amount * (bps : Int) := mul_nonneg h₀ (Int.natCast_nonneg bps)
  rw [bpsPart, Int.tdiv_eq_ediv_of_nonneg hnn]
  omega

/-- A premium below one unit is not collected. -/
theorem collectPremium_small (h₀ : 0 ≤ amount)
    (h : amount * (s.store.insurancePremiumBps : Int) < 10000) :
    collectPremium amount s = .ok (0, s) := by
  have hnn : 0 ≤ amount * (s.store.insurancePremiumBps : Int) :=
    mul_nonneg h₀ (Int.natCast_nonneg _)
  have hz : (amount * (s.store.insurancePremiumBps : Int)).tdiv 10000 = 0 :=
    (bpsPart_eq_zero h₀).mpr h
  simp only [collectPremium, bind_load]
  by_cases hb : s.store.insurancePremiumBps = 0
  · exact ite_ok.mpr (.inl ⟨hb, pure_ok.mpr ⟨rfl, rfl⟩⟩)
  · refine ite_ok.mpr (.inr ⟨hb, bind_orFail.mpr ⟨_, checkedMul_some.mpr
      ⟨⟨by unfold i128Min; omega, by unfold i128Max; omega⟩, rfl⟩, ?_⟩⟩)
    exact ite_ok.mpr (.inr ⟨by rw [hz]; exact lt_irrefl 0, pure_ok.mpr ⟨hz, rfl⟩⟩)

theorem deposit_succeeds (hm : BothMayDeposit self ctx delegate owner amount s)
    (h : s.store.AcceptsDeposit owner amount ctx.now) (hc : s.store.emergencyMode = false)
    (hs : amount * (s.store.insurancePremiumBps : Int) < 10000) :
    (deposit (exact self) ctx owner amount).succeeds s = true := by
  obtain ⟨w, hw⟩ := World.pay_isSome self h.positive.le hm.ownerPays
  have hf : FitsI128 ((s.store.flexibleOf owner ctx.now).balance + amount - 0) := by
    rw [sub_zero]
    exact h.fits
  apply succeeds_of_ok (a := ())
  simp only [deposit, transferIn, entry_rules]
  exact ⟨h.settled, h.running, hc, hm.ownerSigned, h.positive, h.minimum, _,
    ⟨h.fits, rfl⟩, h.cap, ⟨h.positive, h.token, h.settled⟩, w, hw, bind_ok.mpr
      ⟨0, _, collectPremium_small h.positive.le hs, bind_orFail.mpr
        ⟨_, checkedSub_some.mpr ⟨hf, rfl⟩, bind_save.mpr (publish_ok.mpr rfl)⟩⟩⟩

/-- With the same premium as the delegate pays, none, the two deposits leave the same records. -/
theorem deposits_same (hs : amount * (s.store.insurancePremiumBps : Int) < 10000)
    {t' : Sys World} {u' : Unit}
    (hd : delegatedDeposit (exact self) ctx delegate owner amount s = .ok (u, t))
    (hdp : deposit (exact self) ctx owner amount s = .ok (u', t')) :
    t.store.flexible.get owner = t'.store.flexible.get owner ∧
      t.store.insuranceFundBalance = t'.store.insuranceFundBalance ∧
      t.world.held self = t'.world.held self := by
  obtain ⟨hne, hps, _, rfl, -, hw, -, hst⟩ := delegatedDeposit_ok hd
  obtain ⟨hne', -, -, _, premium, rfl, hpr, hw', -, hs'⟩ := deposit_ok hdp
  obtain rfl : premium = 0 := hpr.trans ((bpsPart_eq_zero hps.le).mpr hs)
  have hh : (t.world.tokens self : Int) = s.world.tokens self + amount :=
    World.pay_target hw hne
  have hh' : (t'.world.tokens self : Int) = s.world.tokens self + amount :=
    World.pay_target hw' hne'
  refine ⟨?_, ?_, hh.trans hh'.symm⟩
  · rw [hst, hs']
    simp only [Store.setFlexible, SortedMap.get_set_self, sub_zero]
  · rw [hst, hs']
    exact (add_zero _).symm

/-- The two deposits differ exactly when the checks they share let the amount through while the
emergency mode is on or a premium is due, which only the owner's deposit looks at. -/
theorem deposits_agree_iff (self : Address) (ctx : Ctx) (delegate owner : Address) (amount : Int)
    (s : Sys World) (hmay : BothMayDeposit self ctx delegate owner amount s) :
    DepositsAgree self ctx delegate owner amount s ↔
      (s.store.AcceptsDeposit owner amount ctx.now → s.store.emergencyMode = false ∧
        amount * (s.store.insurancePremiumBps : Int) < 10000) := by
  constructor
  · rintro ⟨hs, hr⟩ ha
    have hdl := (delegatedDeposit_succeeds hmay).mpr ha
    have hdl' := after_of_succeeds hdl
    have hd := after_of_succeeds (hs ▸ hdl)
    refine ⟨(deposit_accepts hd).2, ?_⟩
    obtain ⟨hac, -, -⟩ := hr _ _ _ _ hdl' hd
    obtain ⟨-, -, _, rfl, -, -, -, hst⟩ := delegatedDeposit_ok hdl'
    obtain ⟨-, -, -, _, premium, rfl, hpr, -, -, hs'⟩ := deposit_ok hd
    rw [hst, hs'] at hac
    simp only [Store.setFlexible, SortedMap.get_set_self, Option.some.injEq,
      FlexibleAccount.mk.injEq] at hac
    exact (bpsPart_eq_zero ha.positive.le).mp (by omega)
  · intro hc
    refine ⟨?_, ?_⟩
    · rw [Bool.eq_iff_iff, delegatedDeposit_succeeds hmay]
      constructor
      · intro ha
        obtain ⟨hcl, hsm⟩ := hc ha
        exact deposit_succeeds hmay ha hcl hsm
      · intro h
        exact (deposit_accepts (after_of_succeeds h)).1
    · intro u t u' t' hdl hd
      exact deposits_same (hc (deposit_accepts hd).1).2 hdl hd

/-- Saver 2 lets 3 deposit, and gives 3 something to deposit with. -/
def delegationRun : List Move :=
  [.call ⟨0, 0, []⟩ (.setup 1 9),
   .wallet 2 3 500,
   .call ⟨1, 0, [2]⟩ (.config (.delegateSavings 2 3 .deposit none))]

theorem bothMayDeposit_run (es : List Move)
    (hdl : (runFrom (step 0) (.deployed purse) es).store.delegations.get (toLex (2, 3)) =
      some ⟨2, 3, .deposit, none, 1, 1⟩)
    (hpr : 200 ≤ (runFrom (step 0) (.deployed purse) es).world.tokens 2)
    (hd : 200 ≤ (runFrom (step 0) (.deployed purse) es).world.tokens 3) :
    BothMayDeposit 0 ⟨5, 0, [2, 3]⟩ 3 2 200 (runFrom (step 0) (.deployed purse) es) where
  delegation := ⟨_, hdl, rfl, by decide⟩
  delegateSigned := by decide
  ownerSigned := by decide
  delegatePays := by exact_mod_cast hd
  ownerPays := by exact_mod_cast hpr

/-- Without an emergency and without a premium both deposits go through, and agree. -/
theorem deposits_agree_calm :
    let s := runFrom (step 0) (.deployed purse) delegationRun
    (delegatedDeposit (exact 0) ⟨5, 0, [2, 3]⟩ 3 2 200).succeeds s = true ∧
      (DepositsAgree 0 ⟨5, 0, [2, 3]⟩ 3 2 200 s ↔
        (s.store.AcceptsDeposit 2 200 5 → s.store.emergencyMode = false ∧
          (200 : Int) * (s.store.insurancePremiumBps : Int) < 10000)) :=
  ⟨by decide +kernel, deposits_agree_iff 0 ⟨5, 0, [2, 3]⟩ 3 2 200 _
    (bothMayDeposit_run delegationRun (by decide +kernel) (by decide +kernel)
      (by decide +kernel))⟩

/-- In emergency mode the owner cannot deposit, but a delegate can. -/
theorem delegated_deposit_in_emergency :
    let s := runFrom (step 0) (.deployed purse)
      (delegationRun ++ [.call ⟨2, 0, [1]⟩ (.config (.setEmergencyMode 1 true))])
    BothMayDeposit 0 ⟨5, 0, [2, 3]⟩ 3 2 200 s ∧
      (delegatedDeposit (exact 0) ⟨5, 0, [2, 3]⟩ 3 2 200).succeeds s = true ∧
      (deposit (exact 0) ⟨5, 0, [2, 3]⟩ 2 200).succeeds s = false ∧
      ¬DepositsAgree 0 ⟨5, 0, [2, 3]⟩ 3 2 200 s := by
  refine ⟨bothMayDeposit_run _ (by decide +kernel) (by decide +kernel) (by decide +kernel),
    by decide +kernel, by decide +kernel, ?_⟩
  rintro ⟨hs, -⟩
  revert hs
  decide +kernel

end Stow.Vault
