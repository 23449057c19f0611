import Stow.Vault.Books
import Stow.Vault.ChallengeRuns
import Stow.Vault.Paused

/-! Emergency mode: which deposits it stops, and that the ways out stay open. -/
namespace Stow.Vault

open Stow.Lib Stow.Lib.Contract Call Option SortedMap

/-- Where the vault records what users have put in. -/
inductive Account where
  | flexible (owner : Address)
  | plan (id : Nat)
  | goal (id : Nat)
  | group (id : Nat)
  | interest (owner : Address)
  | challenge (id : Nat)

def Account.amount (st : Store × ChallengeStore) : Account → Int
  | .flexible owner => (st.1.flexible.get owner).elim 0 (·.balance)
  | .plan id => (st.1.locked.get id).elim 0 (·.balance)
  | .goal id => (st.1.goals.get id).elim 0 (·.savedAmount)
  | .group id => (st.1.groups.get id).elim 0 (·.balance)
  | .interest owner => (st.1.interestAccounts.get owner).elim 0 (·.principal)
  | .challenge id => (st.2.challenges.get id).elim 0 (fun c => c.fees + c.savings)

/-- The vault holds more than before, and so does some account. -/
def TakesIn (vault : Address) (s t : ChallengeSys World) : Prop :=
  s.world.held vault < t.world.held vault ∧ ∃ a : Account, a.amount s.store < a.amount t.store

/-- The deposits of users that do not ask for the emergency mode. -/
def Op.ungatedDeposit : Op → Bool
  | .delegatedDeposit _ _ _ | .lockedCreate _ _ _ | .lockedTopUp _ _ _ | .goalContribute _ _ _
  | .groupContribute _ _ _ | .interestDeposit _ _ => true
  | _ => false

def ChallengeMove.ungatedDeposit : ChallengeMove → Bool
  | .vault (.call _ op) => op.ungatedDeposit
  | .call _ (.create _ _ _ _ _) | .call _ (.join _ _) | .call _ (.save _ _ _) => true
  | _ => false

def ChallengeMove.succeeds (vault : Address) (s : ChallengeSys World) : ChallengeMove → Bool
  | .call ctx op => (op.exec (exact vault) ctx).succeeds s
  | .vault (.call ctx op) => (op.exec (exact vault) ctx).succeeds ⟨s.store.1, s.log, s.world⟩
  | .vault (.wallet _ _ _) => true

variable {self : Address} {ctx : Ctx} {u : Unit} {s t : Sys World} {c : ChallengeStore} {op : Op}

/-! ### Payments -/

variable {w w' : World}

theorem held_lt_of_pay {source : Address} {amount : Int} (hne : source ≠ self) (hp : 0 < amount)
    (h : w.pay source self amount = some w') : w.held self < w'.held self := by
  have hg := World.pay_target h hne
  unfold World.held
  omega

theorem pay_held_le {target : Address} {amount : Int} (h : w.pay self target amount = some w') :
    w'.held self ≤ w.held self := by
  by_cases ht : self = target
  · subst ht
    exact (congrArg Nat.cast (Ledger.transfer_self (World.pay_transfer h))).le
  · exact Int.ofNat_le.mpr (World.pay_le_of_ne_target h ht)

theorem payAll_held_le {payments : List (Address × Int)} (h : w.payAll self payments = some w') :
    w'.held self ≤ w.held self := by
  induction payments generalizing w with
  | nil =>
    obtain rfl := some.inj h
    exact le_refl _
  | cons p rest ih =>
    unfold World.payAll at h
    split_ifs at h
    · exact ih h
    · obtain ⟨v, hv, h⟩ := bind_eq_some_iff.mp h
      exact (ih h).trans (pay_held_le hv)

/-- A call that transfers nothing to the vault never raises what it holds. -/
theorem exec_held_le (hop : op.takesTokens = false) (h : op.exec (exact self) ctx s = .ok (u, t)) :
    t.world.held self ≤ s.world.held self := by
  cases op with
  | setup admin token => exact (initializeVault_ok h).2.2 ▸ le_refl _
  | config op => exact (ConfigOp.exec_ok h).2 ▸ le_refl _
  | _ =>
    have hp (op : Op) (hop : op.takesTokens = false) (hs : op.isSetup = false)
        (hc : ∀ cop, op ≠ .config cop) :
        Preserves (fun v => v.world.held self ≤ s.world.held self) (op.exec (exact self) ctx) := by
      refine exec_preserves (fun _ _ _ hsr v _ w hv hm => ?_)
        (fun _ _ => preserves_save fun _ hv => hv) (fun _ _ _ => preserves_publish fun _ hv => hv)
        hs hc
      obtain ⟨-, -, -, w', hpy, rfl⟩ := moveTokens_exact.mp hm
      obtain rfl := hsr hop
      exact (pay_held_le hpy).trans hv
    refine hp _ hop rfl ?_ s u t (le_refl _) h
    exact nofun

/-! ### One call in emergency mode -/

theorem takesIn_irrefl (s : ChallengeSys World) : ¬TakesIn self s s :=
  fun h => lt_irrefl _ h.1

/-- Funding the insurance or the rewards credits no user. -/
theorem amount_same (hf : op.Frame s.store t.store) (hfl : op.writesFlexible = false)
    (hp : op.writesPlans = false) (hg : op.writesGoals = false)
    (hgr : op.writesGroups = false) (hi : op.writesInterest = false) (a : Account) :
    a.amount (t.store, c) = a.amount (s.store, c) := by
  cases a with
  | flexible owner => simp only [Account.amount, hf.flexible hfl]
  | plan id =>
    have hsm : t.store.locked = s.store.locked := congrArg Prod.fst (hf.plans hp)
    simp only [Account.amount, hsm]
  | goal id =>
    have hsm : t.store.goals = s.store.goals := congrArg Prod.fst (hf.goals hg)
    simp only [Account.amount, hsm]
  | group id =>
    have hsm : t.store.groups = s.store.groups := congrArg Prod.fst (hf.groups hgr)
    simp only [Account.amount, hsm]
  | interest owner => simp only [Account.amount, hf.interest hi]
  | challenge id => rfl

/-- A deposit that does not ask for the mode takes the tokens and credits them. -/
theorem ungated_takesIn (hs : s.store.Sound False False) (hop : op.ungatedDeposit = true)
    (h : op.exec (exact self) ctx s = .ok (u, t)) :
    TakesIn self ⟨(s.store, c), s.log, s.world⟩ ⟨(t.store, c), t.log, t.world⟩ := by
  cases op with
  | delegatedDeposit delegate owner amount =>
    obtain ⟨hne, hps, account, ha, -, hpy, -, hsr⟩ := delegatedDeposit_ok h
    refine ⟨held_lt_of_pay hne hps hpy, .flexible owner, ?_⟩
    have hb : account.balance = (s.store.flexible.get owner).elim 0 (·.balance) := by
      rw [ha, flexibleOf_balance]
    simp only [Account.amount, hsr, Store.setFlexible, get_set_self, elim_some]
    omega
  | lockedCreate owner amount unlockAt =>
    obtain ⟨_, h⟩ := of_void h
    obtain ⟨hne, hps, -, -, rfl, hpy, -, hsr⟩ := lockedCreate_ok h
    refine ⟨held_lt_of_pay hne hps hpy, .plan (s.store.nextLockedId + 1), ?_⟩
    have hn := get_succ_eq_none hs.lockedIds
    simp only [Account.amount, hsr, hn, get_set_self, elim_some,
      elim_none]
    exact hps
  | lockedTopUp owner planId amount =>
    obtain ⟨hne, hps, plan, hg, -, hpy, hsr⟩ := lockedTopUp_ok h
    refine ⟨held_lt_of_pay hne hps hpy, .plan planId, ?_⟩
    simp only [Account.amount, hsr, Store.setLocked, hg, get_set_self,
      elim_some]
    omega
  | goalContribute source goalId amount =>
    obtain ⟨hne, hps, goal, _, hg, -, -, hpy, -, hsr⟩ := goalContribute_ok h
    refine ⟨held_lt_of_pay hne hps hpy, .goal goalId, ?_⟩
    simp only [Account.amount, hsr, hg, get_set_self, elim_some]
    omega
  | groupContribute member groupId amount =>
    obtain ⟨hne, hps, group, hg, -, hpy, hsr⟩ := groupContribute_ok h
    refine ⟨held_lt_of_pay hne hps hpy, .group groupId, ?_⟩
    simp only [Account.amount, hsr, Store.setGroup, hg, get_set_self,
      elim_some]
    omega
  | interestDeposit owner amount =>
    obtain ⟨hne, hps, settled, credited, states, hst, hpy, -, hsr⟩ := interestDeposit_ok h
    refine ⟨held_lt_of_pay hne hps hpy, .interest owner, ?_⟩
    -- interest that falls due on the way is never negative
    have hc := (settle_nonneg (hs.interestOf_nonneg owner ctx.now) hst).1
    have hp := settle_principal hst
    rw [interestOf_principal] at hp
    simp only [Account.amount, hsr, Store.setInterest, Store.setRewardStates,
      InterestAccount.adopt, get_set_self, elim_some]
    omega
  | _ => simp [Op.ungatedDeposit] at hop

theorem emergency_call (hs : s.store.Sound False False) (hm : s.store.emergencyMode = true)
    (h : op.exec (exact self) ctx s = .ok (u, t)) :
    TakesIn self ⟨(s.store, c), s.log, s.world⟩ ⟨(t.store, c), t.log, t.world⟩ ↔
      op.ungatedDeposit = true := by
  refine ⟨fun hin => ?_, fun hop => ungated_takesIn hs hop h⟩
  by_cases ht : op.takesTokens = true
  · cases op with
    | deposit source amount =>
      -- the one deposit that asks
      simp only [Op.exec, deposit, hm, entry_rules] at h
      exact absurd h.2.2.1 Bool.false_ne_true.symm
    | insuranceFund | rewardsFundPool =>
      obtain ⟨-, a, ha⟩ := hin
      exact absurd ha (amount_same (exec_frame h) rfl rfl rfl rfl rfl a).not_gt
    | delegatedDeposit | lockedCreate | lockedTopUp | goalContribute | groupContribute
    | interestDeposit => rfl
    | _ => simp [Op.takesTokens] at ht
  · have hle : t.world.held self ≤ s.world.held self :=
      exec_held_le (Bool.eq_false_of_not_eq_true ht) h
    exact absurd hin.1 (not_lt.mpr hle)

/-- A challenge takes stakes and savings in either mode. -/
theorem challenge_call {s t : ChallengeSys World} {op : ChallengeOp} (hs : s.store.2.Sound self)
    (h : op.exec (exact self) ctx s = .ok (u, t)) :
    TakesIn self s t ↔ (ChallengeMove.call ctx op).ungatedDeposit = true := by
  obtain ⟨-, ⟨creator, target, fee, deadline, members, rfl, hsl, -, hfe, hpy, ht⟩ |
    ⟨id, ch, ch', hg, he, ht⟩⟩ := exec_evolves hs h
  · refine iff_of_true ⟨held_lt_of_pay hsl hfe hpy, .challenge (s.store.2.nextChallengeId + 1),
      ?_⟩ rfl
    have hn := get_succ_eq_none hs.ids
    simp [Account.amount, ht, hn, Challenge.fresh, Challenge.fees, Challenge.savings, hfe]
  · have hch := hs.each id ch hg
    have hlt : ∀ amount : Int, 0 < amount → ch'.fees + ch'.savings = ch.fees + ch.savings + amount →
        (Account.challenge id).amount s.store < (Account.challenge id).amount t.store := by
      intro amount hps hsm
      simp only [Account.amount, ht, hg, get_set_self, elim_some, hsm]
      omega
    cases he with
    | join ho htm hn hsl hpy =>
      refine iff_of_true ⟨held_lt_of_pay hsl hch.fee hpy, .challenge id,
        hlt ch.entryFee hch.fee ?_⟩ rfl
      simp only [Challenge.withParticipant, Challenge.fees, Challenge.savings, List.map_append,
        List.map_cons, List.map_nil, List.sum_append, List.sum_cons, List.sum_nil]
      omega
    | @save participant amount idx p ho htm hps hsl hp hpy =>
      refine iff_of_true ⟨held_lt_of_pay hsl hps hpy, .challenge id, hlt amount hps ?_⟩ rfl
      have hf : (ch.withProgress idx p (p.saved + amount)).fees = ch.fees :=
        congrArg List.sum (map_set_of_eq hp rfl)
      rw [hf, Challenge.savings_progress hp, add_assoc]
    | claimWinner _ _ _ _ _ _ _ hpy =>
      exact iff_of_false (fun hin => absurd hin.1 (not_lt.mpr (pay_held_le hpy)))
        Bool.false_ne_true
    | refundExpired _ _ hpy =>
      exact iff_of_false (fun hin => absurd hin.1 (not_lt.mpr (payAll_held_le hpy)))
        Bool.false_ne_true

/-! ### The ways out -/

/-- What the ways out need of the storage. -/
structure Store.ExitsReady (st : Store) : Prop where
  idle : st.tokenTransferActive = false
  opened : st.admin ≠ none → st.token ≠ none
  armed : st.emergencyMode = true → st.token ≠ none
  fits : st.flexible.Forall (fun _ account => FitsI128 account.balance)

theorem exec_fits (hs : s.store.flexible.Forall (fun _ account => FitsI128 account.balance))
    (h : op.exec (exact self) ctx s = .ok (u, t)) :
    t.store.flexible.Forall (fun _ account => FitsI128 account.balance) := by
  by_cases hop : op.writesFlexible = true
  · cases op with
    | deposit source amount =>
      simp only [Op.exec, deposit, transferIn, entry_rules] at h
      obtain ⟨-, -, -, -, hps, -, _, -, -, -, w, -, h⟩ := h
      obtain ⟨premium, _, hp, h⟩ := bind_ok.mp h
      obtain ⟨-, rfl⟩ := collectPremium_ok hps.le hp
      simp only [bind_rules] at h
      obtain ⟨_, ⟨hf, rfl⟩, rfl⟩ := h
      exact hs.set hf
    | withdraw owner amount =>
      simp only [Op.exec, withdraw, transferOut, entry_rules] at h
      obtain ⟨-, -, -, _, -, -, _, ⟨hf, rfl⟩, -, w, -, rfl⟩ := h
      exact hs.set hf
    | delegatedDeposit delegate owner amount =>
      simp only [Op.exec, delegatedDeposit, transferIn, bind_checkDelegation, entry_rules] at h
      obtain ⟨-, -, -, -, _, -, -, _, ⟨hf, rfl⟩, -, -, w, -, rfl⟩ := h
      exact hs.set hf
    | delegatedWithdraw delegate owner amount =>
      simp only [Op.exec, delegatedWithdraw, transferOut, bind_checkDelegation, entry_rules] at h
      obtain ⟨-, -, -, -, _, -, _, -, -, _, ⟨hf, rfl⟩, -, w, -, rfl⟩ := h
      exact hs.set hf
    | _ => simp [Op.writesFlexible] at hop
  · rw [(exec_frame h).flexible (Bool.eq_false_of_not_eq_true hop)]
    exact hs

theorem exec_exitsReady (hs : s.store.ExitsReady) (h : op.exec (exact self) ctx s = .ok (u, t)) :
    t.store.ExitsReady := by
  have hi := exec_clears (exact_inert self) h
  have hf := exec_fits hs.fits h
  cases op with
  | setup admin token =>
    obtain ⟨-, hst, -⟩ := initializeVault_ok h
    rw [hst] at hi hf ⊢
    exact ⟨hi, fun _ => some_ne_none token, fun _ => some_ne_none token, hf⟩
  | config cop =>
    have hsm := (ConfigOp.exec_ok h).1
    have hw := (ConfigOp.exec_writes h).1
    have ho : t.store.admin ≠ none → t.store.token ≠ none := by
      intro ha
      rw [hsm.token]
      exact hs.opened (fun hn => ha (hsm.admin.mpr hn))
    refine ⟨hi, ho, fun hm => ?_, hf⟩
    cases cop with
    | setEmergencyMode caller active =>
      simp only [Op.exec, ConfigOp.exec, setEmergencyMode, entry_rules] at h
      obtain ⟨-, ⟨ha, -⟩, rfl⟩ := h
      exact ho (ha ▸ some_ne_none caller)
    | _ =>
      have hk := hw.view (f := Store.emergencyMode) (fun _ _ => rfl)
      rw [hsm.token]
      exact hs.armed (hk ▸ hm)
  | _ =>
    obtain ⟨hk, -⟩ := exec_configured (exact_inert self) rfl (fun _ => Op.noConfusion) s u t
      ⟨rfl, rfl⟩ h
    have ha : t.store.admin = s.store.admin := congrArg Settings.admin hk
    have ht : t.store.token = s.store.token := congrArg Settings.token hk
    have hm : t.store.emergencyMode = s.store.emergencyMode :=
      congrArg Settings.emergencyMode hk
    refine ⟨hi, ?_, ?_, hf⟩
    · rw [ha, ht]
      exact hs.opened
    · rw [hm, ht]
      exact hs.armed

theorem pay_isSome (target : Address) {amount : Int} (hp : 0 < amount)
    (hh : amount ≤ w.held self) : ∃ w', w.pay self target amount = some w' := by
  obtain ⟨l, hl⟩ := Ledger.transfer_isSome target hp.le hh
  exact ⟨_, map_eq_some_iff.mpr ⟨l, hl, rfl⟩⟩

section

variable {owner : Address} (hs : s.store.ExitsReady) (hm : s.store.emergencyMode = true)
  (hsigned : owner ∈ ctx.auths ∧ owner ≠ self)

include hs hm hsigned

theorem withdraw_open {amount : Int} {account : FlexibleAccount}
    (hg : s.store.flexible.get owner = some account) (hp : 0 < amount)
    (hle : amount ≤ account.balance) (hh : amount ≤ s.world.held self) :
    ∃ t, withdraw (exact self) ctx owner amount s = .ok ((), t) := by
  obtain ⟨w, hw⟩ := pay_isSome owner hp hh
  have hf : FitsI128 (account.balance - amount) :=
    (hs.fits owner account hg).of_le (by omega) (by omega)
  simp only [withdraw, transferOut, entry_rules]
  exact ⟨_, hs.idle, hsigned, hp, account, hg, hle, _, ⟨hf, rfl⟩,
    ⟨hp, hs.armed hm, hs.idle⟩, w, hw, rfl⟩

theorem emergencyWithdraw_open {planId : Nat} {plan : LockedPlan}
    (hg : s.store.locked.get planId = some plan) (ho : plan.owner = owner)
    (hp : 0 < plan.balance) (hh : plan.balance ≤ s.world.held self) :
    ∃ t, lockedEmergencyWithdraw (exact self) ctx owner planId s = .ok ((), t) := by
  obtain ⟨w, hw⟩ := pay_isSome owner hp hh
  simp only [lockedEmergencyWithdraw, transferOut, entry_rules]
  exact ⟨_, hs.idle, hsigned, hm, plan, hg, ho, hp,
    ⟨hp, hs.armed hm, hs.idle⟩, w, hw, rfl⟩

end

/-! ### Every run -/

/-- The owner of a flexible balance can take out any part of it, and the owner of a plan all of
it, as far as the vault's tokens reach. -/
def ExitsOpen (vault : Address) (s : ChallengeSys World) : Prop :=
  (∀ ctx owner amount account, owner ∈ ctx.auths → owner ≠ vault →
    s.store.1.flexible.get owner = some account → 0 < amount → amount ≤ account.balance →
    amount ≤ s.world.held vault →
    (ChallengeMove.vault (.call ctx (.withdraw owner amount))).succeeds vault s = true) ∧
  ∀ ctx planId plan, plan.owner ∈ ctx.auths → plan.owner ≠ vault →
    s.store.1.locked.get planId = some plan → 0 < plan.balance →
    plan.balance ≤ s.world.held vault →
    (ChallengeMove.vault (.call ctx (.lockedEmergencyWithdraw plan.owner planId))).succeeds vault
      s = true

structure ChallengeSys.Ready (vault : Address) (s : ChallengeSys World) : Prop where
  sound : s.store.1.Sound False False
  challenges : s.store.2.Sound vault
  exits : s.store.1.ExitsReady

theorem ready_deployed (self : Address) (tokens : Ledger Address) :
    (ChallengeSys.deployed tokens).Ready self where
  sound := deployed_sound
  challenges := .deployed self tokens
  exits := ⟨rfl, fun h => absurd rfl h, fun h => absurd h Bool.false_ne_true, .empty⟩

theorem ready_step (s : ChallengeSys World) (e : ChallengeMove) (hs : s.Ready self) :
    (challengeStep self s e).Ready self := by
  have hc := hs.challenges.step e
  cases e with
  | vault e =>
    refine ⟨sound_step ⟨s.store.1, s.log, s.world⟩ e hs.sound, hc, ?_⟩
    exact step_induction (I := fun s => s.store.ExitsReady) (P := fun _ _ => True)
      (fun _ _ _ _ _ hs _ hok => exec_exitsReady hs hok) (fun _ _ _ _ hs => hs)
      ⟨s.store.1, s.log, s.world⟩ e hs.exits trivial
  | call ctx op =>
    rcases after_cases (op.exec (exact self) ctx) s with ⟨u, t, hok, ht⟩ | ⟨-, ht⟩
    · have hk := (exec_evolves hs.challenges hok).1
      simp only [challengeStep, ht] at hc ⊢
      exact ⟨hk ▸ hs.sound, hc, hk ▸ hs.exits⟩
    · simpa only [challengeStep, ht] using hs

theorem inflow_iff (s : ChallengeSys World) (e : ChallengeMove) (hs : s.Ready self)
    (hm : s.store.1.emergencyMode = true) :
    TakesIn self s (challengeStep self s e) ↔
      e.ungatedDeposit = true ∧ e.succeeds self s = true := by
  cases e with
  | call ctx op =>
    rcases after_cases (op.exec (exact self) ctx) s with ⟨u, t, hok, ht⟩ | ⟨⟨_, he⟩, ht⟩
    · simp only [challengeStep, ht, ChallengeMove.succeeds, succeeds_of_ok hok, and_true]
      exact challenge_call hs.challenges hok
    · simp only [challengeStep, ht, ChallengeMove.succeeds, fails_of_error he]
      exact iff_of_false (takesIn_irrefl s) (fun h => Bool.false_ne_true h.2)
  | vault e =>
    cases e with
    | wallet source target amount =>
      -- a transfer from outside touches no record
      exact iff_of_false (fun h => h.2.elim fun _ ha => lt_irrefl _ ha)
        (fun h => Bool.false_ne_true h.1)
    | call ctx op =>
      rcases after_cases (op.exec (exact self) ctx) ⟨s.store.1, s.log, s.world⟩ with
        ⟨u, t, hok, ht⟩ | ⟨⟨_, he⟩, ht⟩
      · simp only [challengeStep, step, ht, ChallengeMove.succeeds, succeeds_of_ok hok,
          and_true]
        exact emergency_call hs.sound hm hok
      · simp only [challengeStep, step, ht, ChallengeMove.succeeds, fails_of_error he]
        exact iff_of_false (takesIn_irrefl s) (fun h => Bool.false_ne_true h.2)

theorem exits_open (s : ChallengeSys World) (hs : s.Ready self)
    (hm : s.store.1.emergencyMode = true) : ExitsOpen self s := by
  constructor
  · intro ctx owner amount account hsigned hsl hg hp hle hh
    obtain ⟨t, hok⟩ := withdraw_open (s := ⟨s.store.1, s.log, s.world⟩) hs.exits hm
      ⟨hsigned, hsl⟩ hg hp hle hh
    exact succeeds_of_ok hok
  · intro ctx planId plan hsigned hsl hg hp hh
    obtain ⟨t, hok⟩ := emergencyWithdraw_open (s := ⟨s.store.1, s.log, s.world⟩) hs.exits hm
      ⟨hsigned, hsl⟩ hg rfl hp hh
    exact succeeds_of_ok hok

/-- In emergency mode a step credits a user with tokens it takes in exactly when it is a
successful deposit other than the owner's own flexible one, and the ways out are open. -/
theorem emergency_inflows (self : Address) (tokens : Ledger Address) (es : List ChallengeMove) :
    AllSteps (challengeStep self) (fun s e => s.store.1.emergencyMode = true →
      (TakesIn self s (challengeStep self s e) ↔
        e.ungatedDeposit = true ∧ e.succeeds self s = true) ∧ ExitsOpen self s)
      (.deployed tokens) es :=
  invariant_allSteps (fun s e hs _ => ready_step s e hs)
    (fun s e hs _ hm => ⟨inflow_iff s e hs hm, exits_open s hs hm⟩)
    (ready_deployed self tokens) (AllSteps.trivial es)

/-- A vault in emergency mode. -/
def emergencyVault : ChallengeSys World := runFrom (challengeStep 0) (.deployed purse)
  [.vault (.call ⟨10, 1, [1]⟩ (.setup 1 9)),
    .vault (.call ⟨20, 2, [1]⟩ (.config (.setEmergencyMode 1 true)))]

/-- In emergency mode a new locked plan is still opened and paid for. -/
theorem emergencyVault_locks : emergencyVault.store.1.emergencyMode = true ∧
    TakesIn 0 emergencyVault (challengeStep 0 emergencyVault
      (.vault (.call ⟨30, 3, [2]⟩ (.lockedCreate 2 500 90)))) :=
  ⟨by decide +kernel, by decide +kernel, .plan 1, by decide +kernel⟩

end Stow.Vault
