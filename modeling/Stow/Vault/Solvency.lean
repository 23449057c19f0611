import Stow.Vault.Books

/-! The vault's holdings against what it owes, along every run. -/
namespace Stow.Vault

open Stow.Lib Stow.Lib.Contract

/-- What the vault owes to its users and to the insured. -/
def Store.owed (st : Store) : Int :=
  st.flexible.sum (·.balance) + st.locked.sum (·.balance) + st.goals.sum (·.savedAmount) +
    st.groups.sum (·.balance) + st.interestAccounts.sum (·.principal) + st.insuranceFundBalance

/-- Settling the account now credits nothing: it earns no interest, no whole period has passed, or
there is nothing to earn on. -/
def InterestAccount.Idle (account : InterestAccount) (now : Nat) : Prop :=
  account.rateBps = 0 ∨ account.periodsAt now = 0 ∨ account.principal = 0

/-- The step credits no interest. -/
def InterestFree (s : Sys World) : Move → Prop
  | .call ctx op => ∀ owner ∈ op.settled, (s.store.interestOf owner ctx.now).Idle ctx.now
  | .wallet _ _ _ => True

instance (account : InterestAccount) (now : Nat) : Decidable (account.Idle now) :=
  inferInstanceAs (Decidable (_ ∨ _))

instance (s : Sys World) (e : Move) : Decidable (InterestFree s e) :=
  match e with
  | .call _ _ => inferInstanceAs (Decidable (∀ _ ∈ _, _))
  | .wallet _ _ _ => isTrue trivial

theorem due_of_idle {account : InterestAccount} {now : Nat} (h : account.Idle now) :
    account.due now = 0 := by
  cases hs : settle account now with
  | none => simp [InterestAccount.due, hs]
  | some r =>
    obtain ⟨principal, hcr, hc, -⟩ := settle_some hs
    have hsm : account.principal = 0 ∨ account.periodsAt now = 0 ∨ account.rateBps = 0 := by
      rcases h with h | h | h
      · exact .inr (.inr h)
      · exact .inr (.inl h)
      · exact .inl h
    rw [compound, if_pos hsm] at hc
    rw [due_of_settle hs, hcr, ← Option.some.inj hc, sub_self]

theorem credited_of_interestFree {s : Sys World} {ctx : Ctx} {op : Op}
    (h : InterestFree s (.call ctx op)) : op.credited ctx s.store = 0 := by
  unfold Op.credited
  cases ho : op.settled with
  | none => rfl
  | some owner => exact due_of_idle (h owner ho)

theorem dropped_nonneg {freshGoals freshGroups : Prop} {st : Store}
    (hs : st.Sound freshGoals freshGroups) (op : Op) : 0 ≤ op.dropped st := by
  unfold Op.dropped
  split
  · cases hg : st.goals.get (st.nextGoalId + 1) with
    | none => exact le_refl _
    | some goal => exact hs.goals _ goal hg
  · cases hgr : st.groups.get (st.nextGroupId + 1) with
    | none => exact le_refl _
    | some group => exact (hs.groups _ group hgr).1
  · exact le_refl _

/-! ### Outside transfers -/

section

variable {w : World} {self source target : Address} {amount : Int}

theorem wallet_returned : (w.wallet self source target amount).returned self = w.returned self := by
  unfold World.wallet
  split_ifs
  · rfl
  · cases w.tokens.transfer source target amount <;> rfl

theorem wallet_held_le : w.held self ≤ (w.wallet self source target amount).held self := by
  unfold World.wallet
  split_ifs with hs
  · exact le_refl _
  · cases h : w.tokens.transfer source target amount with
    | none => exact le_refl _
    | some l =>
      exact Int.ofNat_le.mpr (Ledger.le_of_transfer h (Ne.symm hs))

theorem wallet_held_eq (ht : target ≠ self) :
    (w.wallet self source target amount).held self = w.held self := by
  unfold World.wallet
  split_ifs with hs
  · rfl
  · cases h : w.tokens.transfer source target amount with
    | none => rfl
    | some l => exact congrArg Nat.cast (Ledger.transfer_other h (Ne.symm hs) (Ne.symm ht))

end

/-! ### Solvency -/

/-- Sound records that the tokens cover. -/
structure Sys.Backed (vault : Address) (s : Sys World) : Prop where
  sound : s.store.Sound False False
  covered : s.store.recorded ≤ s.world.net vault
  returned : 0 ≤ s.world.returned vault

theorem backed_deployed (self : Address) (tokens : Ledger Address) :
    (Sys.deployed tokens).Backed self where
  sound := deployed_sound
  covered := by
    have hn : (Sys.deployed tokens).world.net self = tokens self := sub_zero _
    rw [hn]
    exact Int.natCast_nonneg _
  returned := le_refl _

theorem backed_step {self : Address} (s : Sys World) (e : Move) (hs : s.Backed self)
    (he : InterestFree s e) : (step self s e).Backed self := by
  refine step_induction ?_ ?_ s e hs he
  · intro ctx op s t u hs hf h
    obtain ⟨change, hm, hr⟩ := exec_balanced hs.sound h
    refine ⟨exec_sound hs.sound False.elim False.elim h, ?_, hs.returned.trans hm.returned⟩
    have hd := dropped_nonneg hs.sound op
    have hc := hs.covered
    rw [hr, hm.net, credited_of_interestFree hf]
    omega
  · intro source target amount s hs
    refine ⟨hs.sound, hs.covered.trans ?_, wallet_returned.symm ▸ hs.returned⟩
    simp only [World.net, wallet_returned]
    exact sub_le_sub_right wallet_held_le _

theorem Sys.Backed.solvent {self : Address} {s : Sys World} (hs : s.Backed self) :
    s.store.owed ≤ s.world.held self := by
  have hc := hs.covered
  have hr := hs.returned
  have hp := hs.sound.pool
  simp only [Store.recorded, World.net] at hc
  unfold Store.owed
  omega

/-- As long as no interest is credited, the vault can pay everything it owes, whatever is called
and whoever pays in. -/
theorem vault_solvent (self : Address) (tokens : Ledger Address) (es : List Move)
    (h : AllSteps (step self) InterestFree (.deployed tokens) es) :
    AllStates (step self) (fun s => s.store.owed ≤ s.world.held self) (.deployed tokens) es :=
  (invariant_allStates backed_step (backed_deployed self tokens) h).mono (fun _ hs => hs.solvent)

/-- The saver opens an interest account at ten percent and claims after one day. -/
def accruingRun : List Move :=
  [.call ⟨0, 0, []⟩ (.setup 1 9),
   .call ⟨0, 0, [1]⟩ (.config (.setInterestRate 1 1000)),
   .call ⟨0, 0, [1]⟩ (.config (.setInterestFrequency 1 .daily)),
   .call ⟨0, 0, [2]⟩ (.interestDeposit 2 1000000),
   .call ⟨86400, 0, [2]⟩ (.interestClaim 2)]

/-- Interest is promised that nobody has paid in. -/
theorem interest_unbacked :
    (runFrom (step 0) (.deployed purse) accruingRun).world.held 0 <
      (runFrom (step 0) (.deployed purse) accruingRun).store.owed := by decide

/-- The same account before its first whole period, next to a flexible account. -/
def savingRun : List Move :=
  [.call ⟨0, 0, []⟩ (.setup 1 9),
   .call ⟨0, 0, [1]⟩ (.config (.setInterestRate 1 1000)),
   .call ⟨0, 0, [2]⟩ (.interestDeposit 2 600000),
   .call ⟨5, 1, [2]⟩ (.deposit 2 300000),
   .wallet 2 0 1000,
   .call ⟨9, 2, [2]⟩ (.interestWithdraw 2 100000)]

theorem vault_solvent_saving :
    AllSteps (step 0) InterestFree (.deployed purse) savingRun ∧
      AllStates (step 0) (fun s => s.store.owed ≤ s.world.held 0) (.deployed purse) savingRun :=
  ⟨by decide, vault_solvent 0 purse savingRun (by decide)⟩

/-! ### Exact books -/

/-- Initialization comes before the first goal and the first group, and nobody else pays in. -/
def Orderly (self : Address) (s : Sys World) : Move → Prop
  | .call _ op => op.KeepsGoalIds s.store ∧ op.KeepsGroupIds s.store
  | .wallet _ target _ => target ≠ self

instance (self : Address) (s : Sys World) (e : Move) : Decidable (Orderly self s e) :=
  match e with
  | .call _ _ => inferInstanceAs (Decidable (_ ∧ _))
  | .wallet _ _ _ => inferInstanceAs (Decidable (_ ≠ _))

/-- The interest credited so far. -/
def creditNote (self : Address) (s : Sys World) (e : Move) (total : Int) : Int :=
  match e with
  | .call ctx op =>
    if (op.exec (exact self) ctx).succeeds s then total + op.credited ctx s.store else total
  | .wallet _ _ _ => total

theorem dropped_eq_zero {st : Store} (hs : st.Sound True True) (op : Op) : op.dropped st = 0 := by
  unfold Op.dropped
  split
  · rw [get_succ_eq_none (hs.goalIds trivial)]
    rfl
  · rw [get_succ_eq_none (hs.groupIds trivial)]
    rfl
  · rfl

/-- Sound records that agree with the tokens up to the interest credited. -/
structure Sys.Reconciled (vault : Address) (p : Sys World × Int) : Prop where
  sound : p.1.store.Sound True True
  books : p.1.store.recorded = p.1.world.net vault + p.2

theorem reconciled_deployed {self : Address} {tokens : Ledger Address} (h : tokens self = 0) :
    Sys.Reconciled self (.deployed tokens, 0) where
  sound := deployed_sound
  books := by
    have hn : (Sys.deployed tokens).world.net self = tokens self := sub_zero _
    rw [hn, h]
    rfl

theorem reconciled_step {self : Address} (p : Sys World × Int) (e : Move)
    (hp : Sys.Reconciled self p) (he : Orderly self p.1 e) :
    Sys.Reconciled self (watch (step self) (creditNote self) p e) := by
  obtain ⟨s, total⟩ := p
  cases e with
  | wallet source target amount =>
    refine ⟨hp.sound, ?_⟩
    have hh : (s.world.wallet self source target amount).held self = s.world.held self :=
      wallet_held_eq he
    simpa only [watch, step, creditNote, World.net, wallet_returned, hh] using hp.books
  | call ctx op =>
    rcases Call.after_cases (op.exec (exact self) ctx) s with ⟨u, t, hok, ht⟩ | ⟨⟨e, her⟩, ht⟩
    · have hs : (op.exec (exact self) ctx).succeeds s = true := by
        simp [Call.succeeds, hok]
      obtain ⟨change, hm, hr⟩ := exec_balanced hp.sound hok
      have hb : s.store.recorded = s.world.net self + total := hp.books
      refine ⟨?_, ?_⟩
      · simp only [watch, step, ht]
        exact exec_sound hp.sound (fun _ => he.1) (fun _ => he.2) hok
      · simp only [watch, step, creditNote, hs, if_true, ht, hr, hm.net,
          dropped_eq_zero hp.sound op, hb]
        ring
    · have hf : (op.exec (exact self) ctx).succeeds s = false := by
        simp [Call.succeeds, her]
      refine ⟨?_, ?_⟩
      · simpa only [watch, step, ht] using hp.sound
      · simpa only [watch, step, creditNote, hf, Bool.false_eq_true, if_false, ht] using hp.books

/-- What the vault holds and the interest it has credited are what it records and what it has paid
to itself, to the last unit. -/
theorem bookkeeping_exact (self : Address) (tokens : Ledger Address) (hempty : tokens self = 0)
    (es : List Move)
    (h : AllSteps (watch (step self) (creditNote self)) (fun p e => Orderly self p.1 e)
      (.deployed tokens, 0) es) :
    AllStates (watch (step self) (creditNote self))
      (fun p => p.1.world.held self + p.2 = p.1.store.recorded + p.1.world.returned self)
      (.deployed tokens, 0) es := by
  refine (invariant_allStates reconciled_step (reconciled_deployed hempty) h).mono ?_
  intro p hp
  rw [hp.books, World.net]
  ring

/-- Penalties go to the vault's own address, and a plan is broken early. -/
def keptPenaltyRun : List Move :=
  [.call ⟨0, 0, []⟩ (.setup 1 9),
   .call ⟨0, 0, [1]⟩ (.config (.setEarlyWithdrawPenaltyBps 1000)),
   .call ⟨0, 0, [1]⟩ (.config (.setPenaltyRecipient 0)),
   .call ⟨0, 0, [2]⟩ (.lockedCreate 2 1000 500),
   .call ⟨10, 1, [2]⟩ (.lockedEarlyWithdraw 2 1 100)]

/-- The penalty stays in the vault and no record holds it. -/
theorem bookkeeping_kept_penalty :
    let p := runFrom (watch (step 0) (creditNote 0)) (.deployed purse, 0) keptPenaltyRun
    p.1.world.held 0 + p.2 ≠ p.1.store.recorded := by decide

theorem bookkeeping_exact_kept_penalty :
    AllSteps (watch (step 0) (creditNote 0)) (fun p e => Orderly 0 p.1 e) (.deployed purse, 0)
        keptPenaltyRun ∧
      AllStates (watch (step 0) (creditNote 0))
        (fun p => p.1.world.held 0 + p.2 = p.1.store.recorded + p.1.world.returned 0)
        (.deployed purse, 0) keptPenaltyRun :=
  ⟨by decide, bookkeeping_exact 0 purse (by decide) keptPenaltyRun (by decide)⟩

end Stow.Vault
