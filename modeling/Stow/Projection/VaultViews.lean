import Stow.Vault.Published
import Stow.Projection.Service

/-! The accounts, goals and plans of the vault against the read-models projected from its events. -/
namespace Stow.Projection

open Stow.Lib Stow.Lib.Contract List SortedMap
open Stow.Vault (Sys World Op Move)

/-! ### Decoded events -/

def vaultTopic : Vault.Event → Topic
  | .deposit _ _ _ _ => .deposit
  | .withdraw _ _ _ _ => .withdraw
  | .lockedCreated _ _ _ _ _ => .lockedCreated
  | .goalCreated _ _ _ _ _ => .goalCreated
  | .goalContribution _ _ _ _ _ => .goalContribution
  | .goalReached _ _ _ _ _ => .goalReached
  | .groupSplitSettled _ _ _ _ => .groupSplitSettled
  | _ => .other

/-- The members of a payload by their documented names. The schema calls the resulting balance of a
deposit and of a withdrawal `balance`, the projection calls it `new_balance`: the name is a
parameter here. The payload of an event without a handler is not read. -/
def vaultPayload (balance : String) : Vault.Event → Payload
  | .deposit owner amount newBalance timestamp | .withdraw owner amount newBalance timestamp =>
    [("owner", .text (.address owner)), ("amount", .number amount), (balance, .number newBalance),
      ("timestamp", .number timestamp)]
  | .lockedCreated id owner amount unlockAt timestamp =>
    [("id", .number id), ("owner", .text (.address owner)), ("amount", .number amount),
      ("unlock_at", .number unlockAt), ("timestamp", .number timestamp)]
  | .goalCreated id owner name targetAmount timestamp =>
    [("id", .number id), ("owner", .text (.address owner)), ("name", .text (.str name)),
      ("target_amount", .number targetAmount), ("timestamp", .number timestamp)]
  | .goalContribution id contributor amount newSaved timestamp =>
    [("id", .number id), ("from", .text (.address contributor)), ("amount", .number amount),
      ("saved_amount", .number newSaved), ("timestamp", .number timestamp)]
  | .goalReached id owner newSaved targetAmount timestamp =>
    [("id", .number id), ("owner", .text (.address owner)), ("saved_amount", .number newSaved),
      ("target_amount", .number targetAmount), ("timestamp", .number timestamp)]
  | .groupSplitSettled id member amount timestamp =>
    [("id", .number id), ("member", .text (.address member)), ("amount", .number amount),
      ("timestamp", .number timestamp)]
  | _ => []

def projectEvent (balance : String) (m : ReadModels) (e : Vault.Event) : ReadModels :=
  ((apply (vaultTopic e) (vaultPayload balance e)).run m).1

/-- The read-models after every event was applied once, in order. -/
def project (balance : String) (log : List Vault.Event) : ReadModels :=
  log.foldl (projectEvent balance) .empty

/-! ### Agreement -/

/-- The amount of an account without a row is 0. -/
def ReadModels.amountOf (m : ReadModels) (account : Text) : Text :=
  (m.balances account).getD (.num 0)

def vaultBalance (flexible : SortedMap Vault.Address Vault.FlexibleAccount) (a : Vault.Address) :
    Int :=
  (flexible.get a).elim 0 (·.balance)

def AccountsFollow (flexible : SortedMap Vault.Address Vault.FlexibleAccount) (m : ReadModels) :
    Prop :=
  ∀ a, m.amountOf (.address a) = .num (vaultBalance flexible a)

/-- Every record has a row that shows its amount. -/
def RowsFollow {V R : Type} (amount : V → Int) (shown : R → Text) (records : SortedMap Nat V)
    (rows : Text → Option R) : Prop :=
  ∀ id v, records.get id = some v → (rows (.num id)).map shown = some (.num (amount v))

abbrev GoalsFollow (goals : SortedMap Nat Vault.Goal) (m : ReadModels) : Prop :=
  RowsFollow Vault.Goal.savedAmount Goal.currentAmount goals m.goals

abbrev PlansFollow (plans : SortedMap Nat Vault.LockedPlan) (m : ReadModels) : Prop :=
  RowsFollow Vault.LockedPlan.balance LockedPlan.balance plans m.plans

/-- The balance of every account, goal and plan of the vault is the one projected. -/
structure Follows (st : Vault.Store) (m : ReadModels) : Prop where
  accounts : AccountsFollow st.flexible m
  goals : GoalsFollow st.goals m
  plans : PlansFollow st.locked m

/-- What a call must be for its events to tell all that it did: a deposit bears no premium, the
balance after a withdrawal has the name that is read, a plan has a time that a date can hold and is
never added to nor taken from, the id of a goal was not that of one that was paid into, and a goal
that is claimed does not start again. -/
def Told (balance : String) (s : Sys World) : Op → Prop
  | .deposit _ amount => bpsPart s.store.insurancePremiumBps amount = 0
  | .withdraw _ _ | .delegatedWithdraw _ _ _ => balance = "new_balance"
  | .lockedCreate _ _ unlockAt => (unlockAt : Int) * 1000 ≤ maxTime
  | .lockedTopUp _ _ _ | .lockedWithdraw _ _ _ | .lockedEarlyWithdraw _ _ _
  | .lockedEmergencyWithdraw _ _ => False
  | .goalCreate _ _ _ =>
    ∀ row ∈ (project balance s.log).goals (.num (s.store.nextGoalId + 1 : Nat)),
      row.currentAmount = .num 0
  | .goalClaim _ goalId => ∀ goal ∈ s.store.goals.get goalId, goal.autoRenew = true →
      goal.savedAmount = 0
  | _ => True

/-- A call that fails tells nothing and does nothing. -/
def CallTold (self : Vault.Address) (balance : String) (s : Sys World) : Move → Prop
  | .call ctx op => (op.exec (Vault.exact self) ctx).succeeds s = true → Told balance s op
  | .wallet _ _ _ => True

/-! ### One record at a time -/

variable {m m' : ReadModels} {balance : String}

theorem accountsFollow_put {flexible : SortedMap Vault.Address Vault.FlexibleAccount}
    (h : AccountsFollow flexible m) (owner : Vault.Address) (account : Vault.FlexibleAccount)
    (amount : Text) :
    AccountsFollow (flexible.set owner account) (m.putBalance (.address owner) amount) ↔
      amount = .num account.balance := by
  unfold AccountsFollow ReadModels.amountOf ReadModels.putBalance vaultBalance
  constructor
  · intro hn
    simpa using hn owner
  · intro ham a
    rw [get_set]
    by_cases ha : a = owner
    · simp [ha, ham]
    · have hk : Text.address a ≠ .address owner := fun heq => ha (Text.address.inj heq)
      simp only [Function.update_of_ne hk, if_neg ha]
      exact h a

section

variable {V R : Type} {amount : V → Int} {shown : R → Text} {records : SortedMap Nat V}
  {rows : Text → Option R}

section

variable (h : RowsFollow amount shown records rows) (id : Nat)

include h id

theorem rowsFollow_set (v : V) :
    RowsFollow amount shown (records.set id v) rows ↔
      (rows (.num id)).map shown = some (.num (amount v)) := by
  constructor
  · intro hn
    exact hn id v (get_set_self records id v)
  · intro hid id' v' hg
    rcases get_set_cases hg with ⟨rfl, rfl⟩ | ⟨-, hg⟩
    · exact hid
    · exact h id' v' hg

theorem rowsFollow_put (v : V) (row : R) :
    RowsFollow amount shown (records.set id v) (Function.update rows (.num id) (some row)) ↔
      shown row = .num (amount v) := by
  constructor
  · intro hn
    simpa using hn id v (get_set_self records id v)
  · intro hr id' v' hg
    rcases get_set_cases hg with ⟨rfl, rfl⟩ | ⟨heq, hg⟩
    · simp [hr]
    · rw [Function.update_of_ne (num_id_ne heq)]
      exact h id' v' hg

theorem RowsFollow.remove : RowsFollow amount shown (records.remove id) rows := by
  intro id' v hg
  rw [get_remove] at hg
  split_ifs at hg
  exact h id' v hg

end

theorem RowsFollow.congr {records' : SortedMap Nat V} {rows' : Text → Option R}
    (h : RowsFollow amount shown records rows) (hr : records' = records) (hrw : rows' = rows) :
    RowsFollow amount shown records' rows' :=
  hr ▸ hrw ▸ h

end

theorem AccountsFollow.congr {flexible flexible' : SortedMap Vault.Address Vault.FlexibleAccount}
    (h : AccountsFollow flexible m) (hf : flexible' = flexible)
    (hb : m'.balances = m.balances) : AccountsFollow flexible' m' := by
  unfold AccountsFollow ReadModels.amountOf
  rw [hb, hf]
  exact h

/-! ### One event at a time -/

theorem project_append (balance : String) (log es : List Vault.Event) :
    project balance (log ++ es) = es.foldl (projectEvent balance) (project balance log) :=
  foldl_append ..

theorem project_concat (balance : String) (log : List Vault.Event) (e : Vault.Event) :
    project balance (log ++ [e]) = projectEvent balance (project balance log) e :=
  project_append balance log [e]

/-- The projected tables that the vault's records are compared with. -/
def SameViews (m m' : ReadModels) : Prop :=
  m'.balances = m.balances ∧ m'.goals = m.goals ∧ m'.plans = m.plans

/-- An event of another kind shows in none of them. -/
theorem projectEvent_unreported {e : Vault.Event} (he : e.reports = false) (m : ReadModels) :
    SameViews m (projectEvent balance m e) := by
  have ht : (vaultTopic e).writesBalances = false ∧ (vaultTopic e).writesGoals = false ∧
      vaultTopic e ≠ .lockedCreated := by
    cases e <;>
      first | exact absurd he Bool.false_ne_true.symm | exact ⟨rfl, rfl, by simp [vaultTopic]⟩
  exact ⟨apply_balances ht.1, apply_goals ht.2.1, apply_plans ht.2.2⟩

theorem projectEvents_unreported {es : List Vault.Event} (hes : ∀ e ∈ es, e.reports = false)
    (m : ReadModels) : SameViews m (es.foldl (projectEvent balance) m) := by
  induction es generalizing m with
  | nil => exact ⟨rfl, rfl, rfl⟩
  | cons e es ih =>
    obtain ⟨hb, hg, hp⟩ := projectEvent_unreported (hes e mem_cons_self) m
    obtain ⟨hb', hg', hp'⟩ :=
      ih (fun e he => hes e (mem_cons_of_mem _ he)) (projectEvent balance m e)
    exact ⟨hb'.trans hb, hg'.trans hg, hp'.trans hp⟩

theorem projectEvent_deposit {owner : Vault.Address} {before : Int} (amount newBalance : Int)
    (timestamp : Nat) (h : m.amountOf (.address owner) = .num before) :
    projectEvent balance m (.deposit owner amount newBalance timestamp) =
      m.putBalance (.address owner) (.num (before + amount)) := by
  have hc : creditedAmount (m.balances (.address owner)) (.num amount) =
      some (before + amount) := by
    unfold creditedAmount
    rw [show (m.balances (.address owner)).getD (.num 0) = .num before from h]
    rfl
  exact congrArg Prod.fst (run_credit hc)

theorem projectEvent_withdraw (m : ReadModels) (owner : Vault.Address) (amount newBalance : Int)
    (timestamp : Nat) :
    projectEvent balance m (.withdraw owner amount newBalance timestamp) =
      m.putBalance (.address owner)
        (if balance = "new_balance" then .num newBalance else .str "undefined") := by
  have hn : ((vaultPayload balance (.withdraw owner amount newBalance timestamp)).get
      "new_balance").toText =
      if balance = "new_balance" then .num newBalance else .str "undefined" := by
    split_ifs with hb
    · rw [hb]
      rfl
    · have hne : ("new_balance" == balance) = false :=
        beq_eq_false_iff_ne.mpr (fun heq => hb heq.symm)
      simp [vaultPayload, Payload.get, lookup_cons, hne, Value.toText]
  rw [← hn]
  exact congrArg Prod.fst (run_setBalance m (.address owner) _)

theorem projectEvent_lockedCreated {id : Nat} (owner : Vault.Address) (amount : Int)
    (unlockAt timestamp : Nat) (h : m.plans (.num id) = none) :
    projectEvent balance m (.lockedCreated id owner amount unlockAt timestamp) =
      if (unlockAt : Int) * 1000 ≤ maxTime then
        m.putPlan (.num id) ⟨.address owner, .num amount, unlockAt⟩
      else m := by
  have hr : projectEvent balance m (.lockedCreated id owner amount unlockAt timestamp) =
      ((createPlan (.num id) (.address owner) (.num amount) (toDate (.number unlockAt))).run m).1 :=
    rfl
  rw [hr, toDate_number]
  split_ifs
  · rw [run_createPlan_of_none h]
  · unfold createPlan
    rw [Async.run_bind_of_some (Async.run_read _ m), h]
    rfl

theorem projectEvent_goalCreated (m : ReadModels) (id : Nat) (owner : Vault.Address)
    (name : String) (targetAmount : Int) (timestamp : Nat) :
    projectEvent balance m (.goalCreated id owner name targetAmount timestamp) =
      if m.goals (.num id) = none then
        m.putGoal (.num id) ⟨.address owner, .str name, .num targetAmount, .num 0, .active⟩
      else m := by
  have hr : projectEvent balance m (.goalCreated id owner name targetAmount timestamp) =
      ((createGoal (.num id) (.address owner) (.str name) (.num targetAmount)).run m).1 := rfl
  rw [hr]
  cases h : m.goals (.num id) with
  | none => rw [run_createGoal_of_none h, if_pos rfl]
  | some goal => rw [run_createGoal_of_some h, if_neg (by simp)]

/-- The amount is added. Whether the goal is then marked as reached makes no difference to it. -/
theorem projectEvent_goalContribution {id : Nat} {row : Goal} {saved : Int}
    (contributor : Vault.Address) (amount newSaved : Int) (timestamp : Nat)
    (h : m.goals (.num id) = some row) (hs : row.currentAmount = .num saved) :
    projectEvent balance m (.goalContribution id contributor amount newSaved timestamp) =
      m.putGoal (.num id) (row.holding (saved + amount)) := by
  have hb : bigInt row.currentAmount = some saved := by rw [hs, bigInt_num]
  exact run_contribute h hb (bigInt_num amount)

theorem projectEvent_goalReached {id : Nat} {row : Goal} (owner : Vault.Address)
    (newSaved targetAmount : Int) (timestamp : Nat) (h : m.goals (.num id) = some row) :
    projectEvent balance m (.goalReached id owner newSaved targetAmount timestamp) =
      m.putGoal (.num id) { row with status := .reached } :=
  run_markGoalReachedAndNotify h

/-! ### One call at a time -/

variable {self : Vault.Address} {ctx : Vault.Ctx} {s t : Sys World} {u : Unit}

theorem project_of_unreported {op : Op} (hop : op.reports = false)
    (h : op.exec (Vault.exact self) ctx s = .ok (u, t)) :
    SameViews (project balance s.log) (project balance t.log) := by
  obtain ⟨es, hlg, hes⟩ := Vault.exec_unreported (Vault.exact_inert self) hop s u t
    (Vault.Sys.Unreported.refl s) h
  rw [hlg, project_append]
  exact projectEvents_unreported hes _

/-- What is known of every state: ids behind the counter, and no row for a plan ahead of it. -/
structure Known (balance : String) (s : Sys World) : Prop where
  sound : s.store.Sound False False
  unborn : ∀ id, s.store.nextLockedId < id → (project balance s.log).plans (.num id) = none

theorem follows_congr {st st' : Vault.Store} (hv : SameViews m m')
    (hfl : st'.flexible = st.flexible) (hgl : st'.goals = st.goals)
    (hl : st'.locked = st.locked) (h : Follows st m) : Follows st' m' :=
  ⟨h.accounts.congr hfl hv.1, h.goals.congr hgl hv.2.1, h.plans.congr hl hv.2.2⟩

/-- Only a new plan moves the counter of plans: initialization finds it at 0. -/
theorem nextLockedId_of_exec {op : Op} (hs : s.store.Sound False False)
    (hop : ∀ owner amount unlockAt, op ≠ .lockedCreate owner amount unlockAt)
    (h : op.exec (Vault.exact self) ctx s = .ok (u, t)) :
    t.store.nextLockedId = s.store.nextLockedId := by
  have hf := Vault.exec_frame h
  cases op with
  | setup admin token =>
    obtain ⟨ha, hst, -⟩ := Vault.initializeVault_ok h
    rw [hst, (hs.unset ha).2.2]
    rfl
  | lockedCreate owner amount unlockAt => exact absurd rfl (hop owner amount unlockAt)
  | lockedTopUp | lockedWithdraw | lockedEarlyWithdraw | lockedEmergencyWithdraw =>
    exact congrFun (hf.counters rfl) .plan
  | _ => exact congrArg Prod.snd (hf.plans rfl)

/-- Only a new plan writes a row for a plan. -/
theorem plans_of_exec {op : Op}
    (hop : ∀ owner amount unlockAt, op ≠ .lockedCreate owner amount unlockAt)
    (h : op.exec (Vault.exact self) ctx s = .ok (u, t)) :
    (project balance t.log).plans = (project balance s.log).plans := by
  have hc {log : List Vault.Event} {e : Vault.Event} (ht : vaultTopic e ≠ .lockedCreated) :
      (project balance (log ++ [e])).plans = (project balance log).plans := by
    rw [project_concat]
    exact apply_plans ht
  cases op with
  | lockedCreate owner amount unlockAt => exact absurd rfl (hop owner amount unlockAt)
  | deposit source amount =>
    obtain ⟨-, -, -, _, _, -, -, -, hlg, -⟩ := Vault.deposit_ok h
    exact hlg ▸ hc nofun
  | withdraw owner amount =>
    obtain ⟨-, -, _, -, -, -, hlg, -⟩ := Vault.withdraw_ok h
    exact hlg ▸ hc nofun
  | delegatedDeposit delegate owner amount =>
    obtain ⟨-, -, _, -, -, -, hlg, -⟩ := Vault.delegatedDeposit_ok h
    exact hlg ▸ hc nofun
  | delegatedWithdraw delegate owner amount =>
    obtain ⟨-, _, _, -, -, -, -, hlg, -⟩ := Vault.delegatedWithdraw_ok h
    exact hlg ▸ hc nofun
  | goalCreate owner name targetAmount =>
    obtain ⟨id, h⟩ := of_void h
    obtain ⟨-, -, -, -, hlg⟩ := Vault.goalCreate_ok h
    exact hlg ▸ hc nofun
  | goalContribute source goalId amount =>
    obtain ⟨-, -, _, _, -, -, -, -, hlg, -⟩ := Vault.goalContribute_ok h
    rw [hlg]
    split_ifs
    · rw [append_cons]
      exact Eq.trans (hc nofun) (hc nofun)
    · exact hc nofun
  | _ => exact (project_of_unreported rfl h).2.2

theorem known_exec {op : Op} (hs : Known balance s)
    (h : op.exec (Vault.exact self) ctx s = .ok (u, t)) : Known balance t := by
  refine ⟨Vault.exec_sound hs.sound False.elim False.elim h, ?_⟩
  intro id hid
  by_cases hc : ∃ owner amount unlockAt, op = .lockedCreate owner amount unlockAt
  · obtain ⟨owner, amount, unlockAt, rfl⟩ := hc
    obtain ⟨planId, h⟩ := of_void h
    obtain ⟨-, -, -, -, rfl, -, hlg, hst⟩ := Vault.lockedCreate_ok h
    rw [hst] at hid
    have hid : s.store.nextLockedId + 1 < id := hid
    rw [hlg, project_concat,
      projectEvent_lockedCreated owner amount unlockAt ctx.now (hs.unborn _ (Nat.lt_succ_self _))]
    split_ifs
    · unfold ReadModels.putPlan
      simp only
      rw [Function.update_of_ne (num_id_ne hid.ne')]
      exact hs.unborn id (by omega)
    · exact hs.unborn id (by omega)
  · rw [nextLockedId_of_exec hs.sound (fun o a l heq => hc ⟨o, a, l, heq⟩) h] at hid
    rw [plans_of_exec (fun o a l heq => hc ⟨o, a, l, heq⟩) h]
    exact hs.unborn id hid

/-! ### What a call leaves of the agreement -/

section

variable {st st' : Vault.Store}

theorem follows_iff_accounts (h : Follows st m) (hgl : st'.goals = st.goals)
    (hl : st'.locked = st.locked) (hg : m'.goals = m.goals) (hp : m'.plans = m.plans) :
    Follows st' m' ↔ AccountsFollow st'.flexible m' :=
  ⟨fun h' => h'.accounts, fun ha => ⟨ha, h.goals.congr hgl hg, h.plans.congr hl hp⟩⟩

theorem follows_iff_goals (h : Follows st m) (hfl : st'.flexible = st.flexible)
    (hl : st'.locked = st.locked) (hb : m'.balances = m.balances) (hp : m'.plans = m.plans) :
    Follows st' m' ↔ GoalsFollow st'.goals m' :=
  ⟨fun h' => h'.goals, fun hgl => ⟨h.accounts.congr hfl hb, hgl, h.plans.congr hl hp⟩⟩

theorem follows_iff_plans (h : Follows st m) (hfl : st'.flexible = st.flexible)
    (hgl : st'.goals = st.goals) (hb : m'.balances = m.balances) (hg : m'.goals = m.goals) :
    Follows st' m' ↔ PlansFollow st'.locked m' :=
  ⟨fun h' => h'.plans, fun hp => ⟨h.accounts.congr hfl hb, h.goals.congr hgl hg, hp⟩⟩

end

theorem flexibleOf_balance (st : Vault.Store) (owner : Vault.Address) (now : Nat) :
    (st.flexibleOf owner now).balance = vaultBalance st.flexible owner := by
  unfold Vault.Store.flexibleOf vaultBalance
  cases st.flexible.get owner <;> rfl

section

variable {owner : Vault.Address} {account : Vault.FlexibleAccount}
  (h : Follows s.store (project balance s.log))
  (hfl : t.store.flexible = s.store.flexible.set owner account)
  (hgl : t.store.goals = s.store.goals) (hl : t.store.locked = s.store.locked)

include h hfl hgl hl

/-- A payment in is told in full when it is all put on the account. -/
theorem deposited_follows {amount newBalance : Int} {now : Nat}
    (hlg : t.log = s.log ++ [.deposit owner amount newBalance now]) :
    Follows t.store (project balance t.log) ↔
      vaultBalance s.store.flexible owner + amount = account.balance := by
  rw [hlg, project_concat,
    projectEvent_deposit amount newBalance now (h.accounts owner)]
  refine Iff.trans (follows_iff_accounts h hgl hl rfl rfl) ?_
  rw [hfl, accountsFollow_put h.accounts, Text.num.injEq]

theorem withdrawn_follows {amount newBalance : Int} {now : Nat}
    (hlg : t.log = s.log ++ [.withdraw owner amount newBalance now])
    (hb : account.balance = newBalance) :
    Follows t.store (project balance t.log) ↔ balance = "new_balance" := by
  rw [hlg, project_concat, projectEvent_withdraw]
  refine Iff.trans (follows_iff_accounts h hgl hl rfl rfl) ?_
  rw [hfl, accountsFollow_put h.accounts]
  split_ifs with hn
  · exact iff_of_true (by rw [hb]) hn
  · exact iff_of_false (fun heq => by cases heq) hn

end

/-- The balance of a plan that is added to or taken from is not told. -/
theorem plan_changed_not_follows {op : Op} {id : Nat} {plan : Vault.LockedPlan} {newBalance : Int}
    (h : Follows s.store (project balance s.log)) (hop : op.reports = false)
    (he : op.exec (Vault.exact self) ctx s = .ok (u, t))
    (hg : s.store.locked.get id = some plan)
    (hs : t.store = s.store.setLocked id { plan with balance := newBalance })
    (hne : newBalance ≠ plan.balance) : ¬Follows t.store (project balance t.log) := by
  intro h'
  have hr := h'.plans id { plan with balance := newBalance }
    (by rw [hs]; exact get_set_self _ _ _)
  rw [(project_of_unreported hop he).2.2, h.plans id plan hg] at hr
  exact hne (Text.num.inj (Option.some.inj hr)).symm

theorem exec_follows_iff {op : Op} (hs : Known balance s)
    (h : Follows s.store (project balance s.log))
    (he : op.exec (Vault.exact self) ctx s = .ok (u, t)) :
    Follows t.store (project balance t.log) ↔ Told balance s op := by
  have hf := Vault.exec_frame he
  cases op with
  | deposit source amount =>
    obtain ⟨-, -, -, account, premium, ha, hpr, -, hlg, hst⟩ := Vault.deposit_ok he
    rw [deposited_follows h (by rw [hst]) (by rw [hst]) (by rw [hst]) hlg, ha, hpr]
    simp only [flexibleOf_balance, Told]
    omega
  | withdraw owner amount =>
    obtain ⟨-, -, account, -, -, -, hlg, hst⟩ := Vault.withdraw_ok he
    exact withdrawn_follows h (by rw [hst]; rfl) (by rw [hst]; rfl) (by rw [hst]; rfl)
      hlg rfl
  | delegatedDeposit delegate owner amount =>
    obtain ⟨-, -, account, ha, -, -, hlg, hst⟩ := Vault.delegatedDeposit_ok he
    rw [deposited_follows h (by rw [hst]; rfl) (by rw [hst]; rfl) (by rw [hst]; rfl) hlg, ha]
    exact iff_of_true (by rw [← flexibleOf_balance]) trivial
  | delegatedWithdraw delegate owner amount =>
    obtain ⟨-, -, account, -, -, -, -, hlg, hst⟩ := Vault.delegatedWithdraw_ok he
    exact withdrawn_follows h (by rw [hst]; rfl) (by rw [hst]; rfl) (by rw [hst]; rfl)
      hlg rfl
  | lockedCreate owner amount unlockAt =>
    obtain ⟨id, he⟩ := of_void he
    obtain ⟨-, -, -, -, rfl, -, hlg, hst⟩ := Vault.lockedCreate_ok he
    have hn := hs.unborn _ (Nat.lt_succ_self s.store.nextLockedId)
    rw [hlg, project_concat,
      projectEvent_lockedCreated owner amount unlockAt ctx.now hn, hst]
    simp only [Told]
    split_ifs with hd
    · refine Iff.trans (follows_iff_plans h rfl rfl rfl rfl) ?_
      exact iff_of_true ((rowsFollow_put h.plans _ _ _).mpr rfl) hd
    · refine Iff.trans (follows_iff_plans h rfl rfl rfl rfl) ?_
      exact iff_of_false (by rw [PlansFollow, rowsFollow_set h.plans, hn]; simp) hd
  | lockedTopUp owner planId amount =>
    obtain ⟨-, hps, plan, hgt, -, -, hst⟩ := Vault.lockedTopUp_ok he
    exact iff_of_false (plan_changed_not_follows h rfl he hgt hst (by omega)) id
  | lockedWithdraw owner planId amount =>
    obtain ⟨-, hps, plan, hgt, -, -, -, -, hst⟩ := Vault.lockedWithdraw_ok he
    exact iff_of_false (plan_changed_not_follows h rfl he hgt hst (by omega)) id
  | lockedEarlyWithdraw owner planId amount =>
    obtain ⟨-, hps, plan, _, _, _, hgt, -, -, -, -, -, -, -, -, hst⟩ :=
      Vault.lockedEarlyWithdraw_ok he
    exact iff_of_false (plan_changed_not_follows h rfl he hgt hst (by omega)) id
  | lockedEmergencyWithdraw owner planId =>
    obtain ⟨-, -, plan, hgt, -, hps, -, hst⟩ := Vault.lockedEmergencyWithdraw_ok he
    exact iff_of_false (plan_changed_not_follows h rfl he hgt hst (by omega)) id
  | goalCreate owner name targetAmount =>
    obtain ⟨id, he⟩ := of_void he
    obtain ⟨-, rfl, hst, -, hlg⟩ := Vault.goalCreate_ok he
    rw [hlg, project_concat, projectEvent_goalCreated, hst]
    simp only [Told]
    cases hrw : (project balance s.log).goals (.num (s.store.nextGoalId + 1 : Nat)) with
    | none =>
      rw [if_pos rfl]
      refine Iff.trans (follows_iff_goals h rfl rfl rfl rfl) ?_
      refine iff_of_true ((rowsFollow_put h.goals _ _ _).mpr rfl) ?_
      intro row hm
      cases hm
    | some row =>
      rw [if_neg (by simp)]
      refine Iff.trans (follows_iff_goals h rfl rfl rfl rfl) ?_
      rw [GoalsFollow, rowsFollow_set h.goals, hrw]
      simp
  | goalContribute source goalId amount =>
    obtain ⟨-, -, goal, contributions, hgt, -, -, -, hlg, hst⟩ := Vault.goalContribute_ok he
    refine iff_of_true ?_ trivial
    obtain ⟨row, hrw, hsv⟩ := Option.map_eq_some_iff.mp (h.goals goalId goal hgt)
    rw [hlg, project_append, foldl_cons,
      projectEvent_goalContribution source amount _ ctx.now hrw hsv, hst]
    split_ifs
    · rw [foldl_cons, foldl_nil,
        projectEvent_goalReached _ _ _ _ (goals_putGoal_self _ _ _), putGoal_putGoal]
      refine Iff.mpr (follows_iff_goals h rfl rfl rfl rfl) ?_
      exact (rowsFollow_put h.goals _ _ _).mpr rfl
    · rw [foldl_nil]
      refine Iff.mpr (follows_iff_goals h rfl rfl rfl rfl) ?_
      exact (rowsFollow_put h.goals _ _ _).mpr rfl
  | goalClaim owner goalId =>
    obtain ⟨goal, payouts, hgt, -, -, -, -, hst⟩ := Vault.goalClaim_ok he
    obtain ⟨hb, hg, hp⟩ : SameViews (project balance s.log) (project balance t.log) :=
      project_of_unreported rfl he
    rw [follows_iff_goals h (by rw [hst]) (by rw [hst]) hb hp, hst]
    unfold GoalsFollow
    rw [hg]
    simp only [Told, Vault.Store.finishedGoals]
    split_ifs with hr
    · rw [rowsFollow_set h.goals, h.goals goalId goal hgt, hgt]
      simp [hr]
    · refine iff_of_true (h.goals.remove goalId) ?_
      intro goal' hm ht
      obtain rfl := Option.some.inj (hgt.symm.trans hm)
      exact absurd ht hr
  | goalSetAutoRenew owner goalId autoRenew =>
    obtain ⟨goal, hgt, -, hst, -⟩ := Vault.goalSetAutoRenew_ok he
    obtain ⟨hb, hg, hp⟩ : SameViews (project balance s.log) (project balance t.log) :=
      project_of_unreported rfl he
    refine iff_of_true ?_ trivial
    rw [follows_iff_goals h (by rw [hst]; rfl) (by rw [hst]; rfl) hb hp, hst]
    unfold GoalsFollow
    rw [hg]
    exact (rowsFollow_set h.goals _ _).mpr (h.goals goalId goal hgt)
  | setup admin token =>
    obtain ⟨-, hst, -⟩ := Vault.initializeVault_ok he
    refine iff_of_true ?_ trivial
    exact follows_congr (project_of_unreported rfl he) (by rw [hst]; rfl)
      (by rw [hst]; rfl) (by rw [hst]; rfl) h
  | _ =>
    refine iff_of_true ?_ trivial
    exact follows_congr (project_of_unreported rfl he) (hf.flexible rfl)
      (congrArg Prod.fst (hf.goals rfl)) (congrArg Prod.fst (hf.plans rfl)) h

/-! ### Whole runs -/

theorem known_step (s : Sys World) (e : Move) (hs : Known balance s) :
    Known balance (Vault.step self s e) :=
  Vault.step_induction (P := fun _ _ => True) (fun _ _ _ _ _ hs _ h => known_exec hs h)
    (fun _ _ _ _ hs => ⟨hs.sound, hs.unborn⟩) s e hs trivial

theorem follows_step_iff (s : Sys World) (e : Move) (hs : Known balance s)
    (h : Follows s.store (project balance s.log)) :
    Follows (Vault.step self s e).store (project balance (Vault.step self s e).log) ↔
      CallTold self balance s e := by
  cases e with
  | wallet source target amount => exact iff_of_true h trivial
  | call ctx op =>
    rcases Call.after_cases (op.exec (Vault.exact self) ctx) s with
      ⟨u, t, hok, ht⟩ | ⟨⟨_, he⟩, ht⟩
    · simp only [Vault.step, ht, CallTold, Call.succeeds_of_ok hok, true_implies]
      exact exec_follows_iff hs h hok
    · simp only [Vault.step, ht, CallTold, Call.succeeds, he]
      exact iff_of_true h (fun hf => by cases hf)

theorem known_deployed (tokens : Ledger Vault.Address) :
    Known balance (Sys.deployed tokens) :=
  ⟨Vault.deployed_sound, fun _ _ => rfl⟩

theorem follows_deployed (tokens : Ledger Vault.Address) :
    Follows (Sys.deployed tokens).store (project balance (Sys.deployed tokens).log) where
  accounts _ := rfl
  goals id goal hg := by cases hg
  plans id plan hg := by cases hg

/-- The balance of every account, goal and plan is the one that was projected, as long as every call
told all that it did. -/
theorem vault_views_follow (self : Vault.Address) (tokens : Ledger Vault.Address)
    (balance : String) (es : List Move) :
    AllStates (Vault.step self) (fun s => Follows s.store (project balance s.log))
        (.deployed tokens) es ↔
      AllSteps (Vault.step self) (CallTold self balance) (.deployed tokens) es :=
  allStates_iff_allSteps (J := Known balance) known_step follows_step_iff (known_deployed tokens)
    (follows_deployed tokens)

/-- A deposit bears a premium of a tenth, and a plan is added to. -/
def premiumAndTopUp : List Move :=
  [.call ⟨10, 1, [1]⟩ (.setup 1 9), .call ⟨20, 2, [1]⟩ (.config (.setInsurancePremiumBps 1 1000)),
    .call ⟨30, 3, [2]⟩ (.deposit 2 1000), .call ⟨40, 4, [2]⟩ (.lockedCreate 2 100 700000),
    .call ⟨50, 5, [2]⟩ (.lockedTopUp 2 1 50)]

/-- The account holds 900 and the plan 150. The rows show 1000 and 100. -/
theorem premiumAndTopUp_astray :
    let s := runFrom (Vault.step 0) (.deployed Vault.purse) premiumAndTopUp
    vaultBalance s.store.flexible 2 = 900 ∧
      (project "balance" s.log).balances (.address 2) = some (.num 1000) ∧
      (s.store.locked.get 1).map (·.balance) = some 150 ∧
      ((project "balance" s.log).plans (.num 1)).map (·.balance) = some (.num 100) := by
  decide +kernel

end Stow.Projection
