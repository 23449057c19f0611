import Stow.Vault.QueuedActions
import Stow.Vault.Reentrancy

/-! Changes of the sensitive settings, and which of them went through a delay. -/
namespace Stow.Vault

open Stow.Lib Stow.Lib.Contract Stow.Lib.Call

variable {W : Type}

/-- The settings that the queue is there to delay. -/
structure SensitiveSettings where
  admin : Option Address
  depositCap : Int
  minDeposit : Int
  earlyWithdrawPenaltyBps : Nat
  penaltyRecipient : Option Address
  minLockPeriod : Nat
  interestRateBps : Nat
  interestFrequency : CompoundFrequency
  deriving DecidableEq

def Settings.sensitive (c : Settings) : SensitiveSettings where
  admin := c.admin
  depositCap := c.depositCap
  minDeposit := c.minDeposit
  earlyWithdrawPenaltyBps := c.earlyWithdrawPenaltyBps
  penaltyRecipient := c.penaltyRecipient
  minLockPeriod := c.minLockPeriod
  interestRateBps := c.interestRateBps
  interestFrequency := c.interestFrequency

/-- These settings, and all code installed so far. -/
def Sys.guarded (s : Sys W) : SensitiveSettings × List Nat :=
  (s.store.settings.sensitive, s.installs)

def TimelockSys.vault (s : TimelockSys W) : Sys W := ⟨s.store.1, s.log, s.world⟩

def TimelockSys.guarded (s : TimelockSys W) : SensitiveSettings × List Nat := s.vault.guarded

/-- A change after the set-up. -/
def SensitiveChange (H : Host W) (s : TimelockSys W) (e : TimelockMove W) : Prop :=
  s.store.1.admin ≠ none ∧ (timelockStep H s e).guarded ≠ s.guarded

/-- The calls that write a sensitive setting or install code at once. -/
def ConfigOp.direct : ConfigOp → Bool
  | .setAdmin _ | .setDepositCap _ | .setMinDeposit _ | .setEarlyWithdrawPenaltyBps _
  | .setPenaltyRecipient _ | .setMinLockPeriod _ | .upgrade _ _ | .setInterestRate _ _
  | .setInterestFrequency _ _ => true
  | _ => false

def TimelockMove.direct : TimelockMove W → Bool
  | .vault _ (.config op) => op.direct
  | _ => false

/-- An upgrade as it was proposed, with the delay in force. -/
structure UpgradeNote where
  newWasmHash : Nat
  time : Nat
  delay : Nat

structure SensitiveBook where
  timelock : TimelockBook
  upgrades : List UpgradeNote

def sensitiveNote (H : Host W) (s : TimelockSys W) (e : TimelockMove W) (b : SensitiveBook) :
    SensitiveBook where
  timelock := timelockNote H s e b.timelock
  upgrades :=
    match e with
    | .vault ctx (.config (.proposeUpgrade caller newWasmHash)) =>
      if (proposeUpgrade H ctx caller newWasmHash).succeeds s.vault then
        ⟨newWasmHash, ctx.now, s.store.1.upgradeDelay⟩ :: b.upgrades
      else b.upgrades
    | _ => b.upgrades

/-- The step executes an action that was queued at least its delay ago, and does to the settings
what the queued payload does; or it installs the code of a proposal that is as old. -/
def Delayed (H : Host W) (p : TimelockSys W × SensitiveBook) (e : TimelockMove W) : Prop :=
  (∃ ctx id, e = .call ctx (.executeAction id) ∧ ∃ q ∈ p.2.timelock.queuings, q.id = id ∧
    q.time + q.delay ≤ ctx.now ∧ ∃ t, applyAction H ctx q.action p.1 = .ok ((), t) ∧
      (timelockStep H p.1 e).guarded = t.guarded) ∨
  ∃ ctx caller, e = .vault ctx (.config (.executeUpgrade caller)) ∧ ∃ q ∈ p.2.upgrades,
    q.time + q.delay ≤ ctx.now ∧
      (timelockStep H p.1 e).guarded = (p.1.guarded.1, p.1.guarded.2 ++ [q.newWasmHash])

variable {H : Host W} {ctx : Ctx} {u : Unit}

/-! ### Calls on the queue -/

section

variable {s t : TimelockSys W} {id : Nat}

theorem installs_append {e : Event} (he : e.installed = none) (st : Store) (log : List Event)
    (world : W) : Sys.installs ⟨st, log ++ [e], world⟩ = log.filterMap Event.installed := by
  simp [Sys.installs, he]

theorem guarded_eq {e : Event} {queue : TimelockStore} (he : e.installed = none)
    (hl : t.log = s.log ++ [e]) (hs : t.store = (s.store.1, queue)) : t.guarded = s.guarded := by
  simp only [TimelockSys.guarded, TimelockSys.vault, Sys.guarded, hs, hl, installs_append he]
  rfl

end

/-! ### Calls of the vault -/

section

variable {s t : Sys W} {op : ConfigOp}

theorem ConfigOp.Writes.sensitive {self : Address} {a b : Store} (h : op.Writes self ctx a b)
    (hop : op.direct = false) : b.settings.sensitive = a.settings.sensitive := by
  refine h.view (f := fun st => st.settings.sensitive) fun _ _ => ?_
  cases op <;> first | rfl | exact absurd hop Bool.false_ne_true.symm

theorem config_installs (hop : op.direct = false) (hex : ∀ caller, op ≠ .executeUpgrade caller)
    (codes : List Nat) : Preserves (fun s => s.installs = codes) (op.exec H ctx) := by
  have hi : op.installs = false := by
    cases op with
    | executeUpgrade caller => exact absurd rfl (hex caller)
    | _ => first | rfl | cases hop
  refine config_preserves (fun _ => preserves_save fun _ hs => hs)
    (fun _ => preserves_perform fun _ _ hs => hs) fun e _ he => preserves_publish fun s hs => ?_
  exact (installs_append (he hi) s.store s.log s.world).trans hs

theorem executeUpgrade_guarded {caller : Address} (h : executeUpgrade H ctx caller s = .ok (u, t)) :
    ∃ proposal, s.store.pendingUpgrade = some proposal ∧ proposal.executeAfter ≤ ctx.now ∧
      t.guarded = (s.guarded.1, s.guarded.2 ++ [proposal.newWasmHash]) := by
  simp only [executeUpgrade, entry_rules] at h
  obtain ⟨-, -, proposal, hp, hr, _, -, _, -, rfl⟩ := h
  exact ⟨proposal, hp, hr, congrArg (Prod.mk _) List.filterMap_append⟩

/-- Once the vault is set up, only the direct setters and a proposed upgrade change anything. -/
theorem vault_guarded (hH : H.Inert) {op : Op} (ha : s.store.admin ≠ none)
    (h : op.exec H ctx s = .ok (u, t)) :
    t.guarded = s.guarded ∨ ∃ cop, op = .config cop ∧
      (cop.direct = true ∨ ∃ caller, cop = .executeUpgrade caller) := by
  cases op with
  | setup admin token => exact absurd (initializeVault_ok h).1 ha
  | config cop =>
    by_cases hd : cop.direct = true
    · exact .inr ⟨cop, rfl, .inl hd⟩
    by_cases he : ∃ caller, cop = .executeUpgrade caller
    · exact .inr ⟨cop, rfl, .inr he⟩
    · have hd : cop.direct = false := Bool.eq_false_of_not_eq_true hd
      have hs := (ConfigOp.exec_effect h).1.sensitive hd
      have hi := config_installs hd (fun caller heq => he ⟨caller, heq⟩)
        s.installs s u t rfl h
      exact .inl (Prod.ext hs hi)
  | _ =>
    obtain ⟨hs, hi⟩ := exec_configured hH rfl (fun _ => Op.noConfusion) s u t
      ⟨rfl, rfl⟩ h
    exact .inl (Prod.ext (congrArg Settings.sensitive hs) hi)

end

/-! ### Proposed upgrades -/

/-- The pending proposal stands in the book, with the delay it has to wait. -/
def UpgradeNoted (st : Store) (upgrades : List UpgradeNote) : Prop :=
  ∀ proposal, st.pendingUpgrade = some proposal → ∃ q ∈ upgrades,
    q.newWasmHash = proposal.newWasmHash ∧ proposal.executeAfter = q.time + q.delay

theorem UpgradeNoted.same {a b : Store} {upgrades : List UpgradeNote}
    (h : b.pendingUpgrade = a.pendingUpgrade) (ha : UpgradeNoted a upgrades) :
    UpgradeNoted b upgrades := by
  intro proposal hp
  exact ha proposal (h ▸ hp)

theorem UpgradeNoted.cleared {st : Store} {upgrades : List UpgradeNote}
    (h : st.pendingUpgrade = none) : UpgradeNoted st upgrades := by
  intro proposal hp
  exact absurd (hp.symm.trans h) (Option.some_ne_none proposal)

theorem applyAction_pending {s t : TimelockSys W} {action : TimelockAction}
    (h : applyAction H ctx action s = .ok (u, t)) :
    t.store.1.pendingUpgrade = s.store.1.pendingUpgrade := by
  cases action with
  | setTimelockDelay delay =>
    simp only [applyAction, applySetTimelockDelay, bind_require, save_ok] at h
    obtain ⟨-, -, rfl⟩ := h
    rfl
  | setAdmin newAdmin =>
    simp only [applyAction, zoom_ok, applySetAdmin, bind_rules] at h
    obtain ⟨_, ⟨_, -, rfl⟩, rfl⟩ := h
    rfl
  | upgrade newWasmHash =>
    simp only [applyAction, zoom_ok, applyUpgrade, bind_rules] at h
    obtain ⟨_, ⟨_, -, _, -, rfl⟩, rfl⟩ := h
    rfl
  | setInterestRate rateBps =>
    simp only [applyAction, zoom_ok, applySetInterestRate, setRateInternal, bind_rules] at h
    obtain ⟨_, ⟨_, -, -, rfl⟩, rfl⟩ := h
    rfl
  | setInterestFrequency frequency =>
    simp only [applyAction, zoom_ok, applySetInterestFrequency, setFrequencyInternal,
      bind_rules] at h
    obtain ⟨_, ⟨_, -, rfl⟩, rfl⟩ := h
    rfl
  | setPenaltyRecipient | setMinLockPeriod =>
    simp only [applyAction, zoom_ok, applySetPenaltyRecipient, applySetMinLockPeriod,
      save_ok] at h
    obtain ⟨_, rfl, rfl⟩ := h
    rfl
  | setDepositCap | setMinDeposit | setEarlyWithdrawPenaltyBps =>
    simp only [applyAction, zoom_ok, applySetDepositCap, applySetMinDeposit,
      applySetEarlyWithdrawPenaltyBps, applyChecked, bind_require, save_ok] at h
    obtain ⟨_, ⟨-, rfl⟩, rfl⟩ := h
    rfl

/-- The head of the book is the proposal a call has just made. -/
theorem noted_call (hH : H.Inert) {s : TimelockSys W} {v : Sys W} {op : Op} {b : SensitiveBook}
    (hb : UpgradeNoted s.store.1 b.upgrades) (h : op.exec H ctx s.vault = .ok (u, v)) :
    UpgradeNoted v.store (sensitiveNote H s (.vault ctx op) b).upgrades := by
  cases op with
  | setup admin token =>
    obtain ⟨-, hst, -⟩ := initializeVault_ok h
    exact hb.same (congrArg Store.pendingUpgrade hst)
  | config cop =>
    have hw := (ConfigOp.exec_effect h).1
    cases cop with
    | proposeUpgrade caller newWasmHash =>
      have hd : (proposeUpgrade H ctx caller newWasmHash).succeeds s.vault = true :=
        succeeds_of_ok h
      simp only [sensitiveNote, hd, if_true]
      intro proposal hp
      rw [show v.store = _ from hw] at hp
      obtain rfl := Option.some.inj hp
      exact ⟨_, List.mem_cons_self, rfl, rfl⟩
    | executeUpgrade | cancelUpgrade => exact .cleared (congrArg Store.pendingUpgrade hw)
    | _ => exact hb.same (hw.view (f := Store.pendingUpgrade) (fun _ _ => rfl))
  | _ =>
    obtain ⟨hs, -⟩ := exec_configured hH rfl (fun _ => Op.noConfusion) s.vault u v
      ⟨rfl, rfl⟩ h
    exact hb.same (congrArg Settings.pendingUpgrade hs)

theorem sensitiveNote_failed {s : TimelockSys W} {op : Op} {b : SensitiveBook} {e : Fault Error}
    (h : op.exec H ctx s.vault = .error e) :
    (sensitiveNote H s (.vault ctx op) b).upgrades = b.upgrades := by
  simp only [sensitiveNote]
  split
  · next heq =>
    obtain ⟨rfl, rfl⟩ := TimelockMove.vault.inj heq
    exact if_neg (fun hok => absurd (hok.symm.trans (fails_of_error h)) Bool.false_ne_true.symm)
  · rfl

/-! ### Every run -/

/-- A call of the vault leaves the queue alone, and the rest as the call leaves it. -/
theorem timelockStep_vault (s : TimelockSys W) (op : Op) :
    timelockStep H s (.vault ctx op) = ⟨(((op.exec H ctx).after s.vault).store, s.store.2),
      ((op.exec H ctx).after s.vault).log, ((op.exec H ctx).after s.vault).world⟩ := by
  simp only [timelockStep, Call.after, zoom, TimelockSys.vault]
  cases op.exec H ctx ⟨s.store.1, s.log, s.world⟩ <;> rfl

/-- What is known of the storage and the book in every run. -/
structure SensitiveTracks (p : TimelockSys W × SensitiveBook) : Prop where
  timelock : TimelockTracks p.1.store.2 p.2.timelock
  upgrades : UpgradeNoted p.1.store.1 p.2.upgrades

section

variable (hH : H.Inert) (p : TimelockSys W × SensitiveBook) (e : TimelockMove W)

include hH p e

theorem noted_step (hp : UpgradeNoted p.1.store.1 p.2.upgrades) :
    UpgradeNoted (timelockStep H p.1 e).store.1 (sensitiveNote H p.1 e p.2).upgrades := by
  obtain ⟨s, b⟩ := p
  cases e with
  | outside world => exact hp
  | vault ctx op =>
    rw [timelockStep_vault]
    rcases after_cases (op.exec H ctx) s.vault with ⟨u, v, hok, hv⟩ | ⟨⟨_, he⟩, hv⟩
    · rw [hv]
      exact noted_call hH hp hok
    · rw [hv, sensitiveNote_failed he]
      exact hp
  | call ctx op =>
    rcases after_cases (op.exec H ctx) s with ⟨u, t, hok, ht⟩ | ⟨-, ht⟩
    · rw [timelockStep, ht]
      cases op with
      | queueAction action =>
        obtain ⟨id, hok⟩ := of_void hok
        exact hp.same (congrArg (fun st => st.1.pendingUpgrade) (queueAction_ok hok).2.2.2.2)
      | executeAction id =>
        obtain ⟨-, _, t₁, -, -, -, -, ha, -, -, hs⟩ := executeAction_ok hok
        rw [hs]
        exact hp.same (applyAction_pending ha)
      | cancelAction id =>
        obtain ⟨-, _, -, -, -, -, hs⟩ := cancelAction_ok hok
        exact hp.same (congrArg (fun st => st.1.pendingUpgrade) hs)
    · rw [timelockStep, ht]
      exact hp

theorem sensitive_step (hp : SensitiveTracks p) :
    SensitiveTracks (watch (timelockStep H) (sensitiveNote H) p e) where
  timelock := tracks_step (p.1, p.2.timelock) e hp.timelock
  upgrades := noted_step hH p e hp.upgrades

/-- A change that is not made directly went through its delay. -/
theorem delayed_of_change (hp : SensitiveTracks p) (hc : SensitiveChange H p.1 e)
    (hd : e.direct = false) : Delayed H p e := by
  obtain ⟨s, b⟩ := p
  obtain ⟨had, hne⟩ := hc
  cases e with
  | outside world => exact absurd rfl hne
  | vault ctx op =>
    rw [timelockStep_vault] at hne
    rcases after_cases (op.exec H ctx) s.vault with ⟨u, v, hok, hv⟩ | ⟨-, hv⟩
    · rw [hv] at hne
      rcases vault_guarded hH had hok with hs | ⟨cop, rfl, hcp | ⟨caller, rfl⟩⟩
      · exact absurd hs hne
      · exact absurd (hcp.symm.trans hd) Bool.false_ne_true.symm
      · obtain ⟨proposal, hpn, hr, hg⟩ := executeUpgrade_guarded hok
        obtain ⟨q, hq, hcd, haf⟩ := hp.upgrades proposal hpn
        refine .inr ⟨ctx, caller, rfl, q, hq, haf ▸ hr, ?_⟩
        rw [timelockStep_vault, hv, hcd]
        exact hg
    · rw [hv] at hne
      exact absurd rfl hne
  | call ctx op =>
    rcases after_cases (op.exec H ctx) s with ⟨u, t, hok, ht⟩ | ⟨-, ht⟩
    · rw [timelockStep, ht] at hne
      cases op with
      | queueAction action =>
        obtain ⟨id, hok⟩ := of_void hok
        obtain ⟨-, -, ⟨_, _, hl⟩, -, hst⟩ := queueAction_ok hok
        exact absurd (guarded_eq rfl hl hst) hne
      | cancelAction id =>
        obtain ⟨-, _, -, -, hl, -, hst⟩ := cancelAction_ok hok
        exact absurd (guarded_eq rfl hl hst) hne
      | executeAction id =>
        obtain ⟨-, entry, t₁, hgt, -, hr, -, hap, hl, -, hst⟩ := executeAction_ok hok
        obtain ⟨-, q, hq, hid, ha, he, -⟩ := hp.timelock.entries id entry hgt
        refine .inl ⟨ctx, id, rfl, q, hq, hid, he ▸ hr, t₁, ha ▸ hap, ?_⟩
        rw [timelockStep, ht]
        exact guarded_eq rfl hl hst
    · rw [timelockStep, ht] at hne
      exact absurd rfl hne

end

/-- Whatever the token does: a change of the sensitive settings or of the code is the effect of an
action or a proposal that has waited for its delay, unless it is made by calling a setter or the
upgrade directly. -/
theorem sensitive_delayed_iff (T : Token W) (self : Address) (depth : Nat) (world : W)
    (es : List (TimelockMove W)) :
    AllSteps (watch (timelockStep (T.host self depth)) (sensitiveNote (T.host self depth)))
      (fun p e => (SensitiveChange (T.host self depth) p.1 e → Delayed (T.host self depth) p e) ↔
        ¬(SensitiveChange (T.host self depth) p.1 e ∧ e.direct = true))
      (.deployed world, ⟨⟨[], [], []⟩, []⟩) es := by
  have hH := T.host_inert self depth
  refine invariant_allSteps (I := SensitiveTracks) (P := fun _ _ => True)
    (fun p e hp _ => sensitive_step hH p e hp) ?_ ⟨tracks_deployed world, .cleared rfl⟩
    (AllSteps.trivial es)
  intro p e hp _
  constructor
  · rintro hdl ⟨hc, hd⟩
    rcases hdl hc with ⟨ctx, id, rfl, -⟩ | ⟨ctx, caller, rfl, -⟩
    · exact Bool.false_ne_true hd
    · exact Bool.false_ne_true hd
  · intro ha hc
    refine delayed_of_change hH p e hp hc (Bool.eq_false_of_not_eq_true fun hd => ?_)
    exact ha ⟨hc, hd⟩

/-- A vault that has just been set up, over a token that moves what it is asked to. -/
def freshVault : TimelockSys World := timelockStep (obliging.host 0 1) (.deployed ⟨purse, []⟩)
  (.vault ⟨10, 1, [1]⟩ (.setup 1 9))

/-- The admin is replaced and new code installed at once, with nothing in the queue. -/
theorem freshVault_bypassed :
    (SensitiveChange (obliging.host 0 1) freshVault (.vault ⟨10, 1, [1]⟩ (.config (.setAdmin 7))) ∧
      ¬Delayed (obliging.host 0 1) (freshVault, ⟨⟨[], [], []⟩, []⟩)
        (.vault ⟨10, 1, [1]⟩ (.config (.setAdmin 7)))) ∧
    SensitiveChange (obliging.host 0 1) freshVault
        (.vault ⟨10, 1, [1]⟩ (.config (.upgrade 1 77))) ∧
      ¬Delayed (obliging.host 0 1) (freshVault, ⟨⟨[], [], []⟩, []⟩)
        (.vault ⟨10, 1, [1]⟩ (.config (.upgrade 1 77))) := by
  have hq : ∀ e, e.direct = true →
      ¬Delayed (obliging.host 0 1) (freshVault, ⟨⟨[], [], []⟩, []⟩) e := by
    rintro e hd (⟨ctx, id, rfl, -⟩ | ⟨ctx, caller, rfl, -⟩)
    · exact Bool.false_ne_true hd
    · exact Bool.false_ne_true hd
  refine ⟨⟨⟨?_, ?_⟩, hq _ rfl⟩, ⟨?_, ?_⟩, hq _ rfl⟩
  all_goals decide +kernel

end Stow.Vault
