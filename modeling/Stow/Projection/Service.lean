import Mathlib.Logic.Function.Basic
import Stow.Lib.Async
import Stow.Projection.Payload

/-! The read-models and the services that project contract events into them. -/
namespace Stow.Projection

open Stow.Lib Async
open Stow.Lib.Async (saveRow orThrow)

inductive GoalStatus where
  | active | reached | claimed
  deriving Repr, DecidableEq

structure Goal where
  owner : Text
  name : Text
  targetAmount : Text
  currentAmount : Text
  status : GoalStatus
  deriving Repr, DecidableEq

structure Group where
  balance : Text
  settled : Bool
  deriving Repr, DecidableEq

structure LockedPlan where
  owner : Text
  balance : Text
  unlockAt : Int
  deriving Repr, DecidableEq

structure YieldPosition where
  shares : Text
  exchangeRateSnapshot : Option Text
  deriving Repr, DecidableEq

/-- One row for each account, goal, group, plan and owner of shares. A balance is its amount. -/
structure ReadModels where
  balances : Text → Option Text
  goals : Text → Option Goal
  groups : Text → Option Group
  plans : Text → Option LockedPlan
  positions : Text → Option YieldPosition

def ReadModels.empty : ReadModels :=
  ⟨fun _ => none, fun _ => none, fun _ => none, fun _ => none, fun _ => none⟩

def ReadModels.putBalance (m : ReadModels) (account amount : Text) : ReadModels :=
  { m with balances := Function.update m.balances account (some amount) }

def ReadModels.putGoal (m : ReadModels) (id : Text) (goal : Goal) : ReadModels :=
  { m with goals := Function.update m.goals id (some goal) }

def ReadModels.putGroup (m : ReadModels) (id : Text) (group : Group) : ReadModels :=
  { m with groups := Function.update m.groups id (some group) }

def ReadModels.putPlan (m : ReadModels) (id : Text) (plan : LockedPlan) : ReadModels :=
  { m with plans := Function.update m.plans id (some plan) }

def ReadModels.putPosition (m : ReadModels) (owner : Text) (position : YieldPosition) :
    ReadModels :=
  { m with positions := Function.update m.positions owner (some position) }

/-- A call of a service. -/
abbrev Service := Async ReadModels

/-! ### Balances -/

/-- The last operation drops the cached balance. -/
def saveBalance (account : Text) (loaded : Option Text) (amount : Text) : Service Unit := do
  saveRow loaded (·.balances account) (·.putBalance account amount)
  outside

def creditedAmount (loaded : Option Text) (amount : Text) : Option Int := do
  let before ← bigInt (loaded.getD (.num 0))
  let added ← bigInt amount
  return before + added

def credit (account amount : Text) : Service Unit := do
  let balance ← read (·.balances account)
  let newAmount ← orThrow (creditedAmount balance amount)
  saveBalance account balance (.num newAmount)

def setBalance (account amount : Text) : Service Unit := do
  let balance ← read (·.balances account)
  saveBalance account balance amount

/-! ### Goals -/

def findByOnChainId (id : Text) : Service Goal := do
  let goal ← read (·.goals id)
  orThrow goal

def createGoal (id owner name targetAmount : Text) : Service Unit := do
  let existing ← read (·.goals id)
  if existing.isSome then pure ()
  else
    saveRow existing (·.goals id) (·.putGoal id ⟨owner, name, targetAmount, .num 0, .active⟩)

def applyContribution (id amount : Text) : Service Goal := do
  let goal ← findByOnChainId id
  let before ← orThrow (bigInt goal.currentAmount)
  let added ← orThrow (bigInt amount)
  let goal := { goal with currentAmount := .num (before + added) }
  write (·.putGoal id goal)
  pure goal

/-- The goal is read again. The notification comes after the write. -/
def markGoalReachedAndNotify (id : Text) : Service Unit := do
  let goal ← findByOnChainId id
  if goal.status = .reached then pure ()
  else do
    write (·.putGoal id { goal with status := .reached })
    outside

/-- A contribution, with the mark on the goal that it completes. -/
def contribute (id amount : Text) : Service Unit := do
  let goal ← applyContribution id amount
  let current ← orThrow (bigInt goal.currentAmount)
  let target ← orThrow (bigInt goal.targetAmount)
  if target ≤ current then markGoalReachedAndNotify id else pure ()

/-! ### Groups, plans and positions -/

def markSettledAndNotify (id : Text) : Service Unit := do
  let found ← read (·.groups id)
  let group := found.getD ⟨.num 0, false⟩
  if group.settled then pure ()
  else do
    saveRow found (·.groups id) (·.putGroup id ⟨.num 0, true⟩)
    outside

def createPlan (id owner balance : Text) (unlockAt : Option Int) : Service Unit := do
  let existing ← read (·.plans id)
  if existing.isSome then pure ()
  else do
    let date ← orThrow unlockAt
    saveRow existing (·.plans id) (·.putPlan id ⟨owner, balance, date⟩)

def upsertYieldPosition (owner shares : Text) (exchangeRate : Option Text) : Service Unit := do
  let found ← read (·.positions owner)
  let position := found.getD ⟨.num 0, none⟩
  saveRow found (·.positions owner)
    (·.putPosition owner ⟨shares, exchangeRate.or position.exchangeRateSnapshot⟩)

/-- Seven digits of the ratio. Whatever does not parse gives 0. -/
def calculateExchangeRate (totalAssets totalShares : Text) : Text :=
  match bigInt totalAssets, bigInt totalShares with
  | some assets, some shares =>
    if shares = 0 then .num 0 else .num ((assets * 10000000).tdiv shares)
  | _, _ => .num 0

/-! ### The dispatch on the topic -/

def accountOf (data : Payload) : Text :=
  (((data.get "owner").orElse (data.get "user")).orElse (data.get "account")).toText

def goalIdOf (data : Payload) : Text := ((data.get "id").orElse (data.get "goal_id")).toText

def planIdOf (data : Payload) : Text := ((data.get "id").orElse (data.get "plan_id")).toText

def groupIdOf (data : Payload) : Text := ((data.get "id").orElse (data.get "group_id")).toText

def nameOf (data : Payload) : Text :=
  match data.get "name" with
  | .text t => t
  | _ => .str ""

def sharesOf (data : Payload) : Text :=
  (((data.get "position_shares").orElse (data.get "total_shares")).orElse (.text (.num 0))).toText

def exchangeRateOf (data : Payload) : Option Text :=
  if (data.get "total_shares").truthy && (data.get "total_assets").truthy then
    some (calculateExchangeRate (data.get "total_assets").toText (data.get "total_shares").toText)
  else none

def apply (topic : Topic) (data : Payload) : Service Unit :=
  match topic with
  | .goalCreated =>
    createGoal (goalIdOf data) (data.get "owner").toText (nameOf data)
      (data.get "target_amount").toText
  | .goalContribution => contribute (goalIdOf data) (data.get "amount").toText
  | .goalReached => markGoalReachedAndNotify (goalIdOf data)
  | .lockedCreated =>
    createPlan (planIdOf data) (data.get "owner").toText (data.get "amount").toText
      (toDate (data.get "unlock_at"))
  | .deposit => credit (accountOf data) (data.get "amount").toText
  | .withdraw => setBalance (accountOf data) (data.get "new_balance").toText
  | .groupSplitSettled => markSettledAndNotify (groupIdOf data)
  | .deposited =>
    let owner := ((data.get "owner").orElse (.text (.str ""))).toText
    if owner.truthy && (sharesOf data).truthy then
      upsertYieldPosition owner (sharesOf data) (exchangeRateOf data)
    else pure ()
  -- only the cached rate is dropped
  | .harvested => outside
  -- the change of strategy is logged, and the rest has no handler
  | .strategyChanged | .withdrawClaimed | .withdrawRequested | .withdrawCancelled | .other =>
    pure ()

/-! ### What a call does when nothing is rejected -/

variable {m : ReadModels}

theorem run_saveBalance (m : ReadModels) (account amount : Text) :
    (saveBalance account (m.balances account) amount).run m =
      (m.putBalance account amount, some ()) :=
  run_bind_of_some (run_saveRow rfl)

theorem run_setBalance (m : ReadModels) (account amount : Text) :
    (setBalance account amount).run m = (m.putBalance account amount, some ()) :=
  run_saveBalance m account amount

theorem run_credit {account amount : Text} {newAmount : Int}
    (h : creditedAmount (m.balances account) amount = some newAmount) :
    (credit account amount).run m = (m.putBalance account (.num newAmount), some ()) := by
  unfold credit
  rw [run_bind_of_some (run_read _ m), h]
  exact run_saveBalance m account _

theorem run_createGoal_of_some {id : Text} {goal : Goal} (h : m.goals id = some goal)
    (owner name targetAmount : Text) :
    (createGoal id owner name targetAmount).run m = (m, some ()) := by
  unfold createGoal
  rw [run_bind_of_some (run_read _ m), h]
  rfl

theorem run_createGoal_of_none {id : Text} (h : m.goals id = none)
    (owner name targetAmount : Text) :
    (createGoal id owner name targetAmount).run m =
      (m.putGoal id ⟨owner, name, targetAmount, .num 0, .active⟩, some ()) := by
  unfold createGoal
  rw [run_bind_of_some (run_read _ m)]
  simp only [h, Option.isSome_none, Bool.false_eq_true, if_false]
  exact run_saveRow h.symm

theorem run_findByOnChainId {id : Text} {goal : Goal} (h : m.goals id = some goal) :
    (findByOnChainId id).run m = (m, some goal) := by
  unfold findByOnChainId
  rw [run_bind_of_some (run_read _ m), h]
  rfl

theorem run_applyContribution {id amount : Text} {goal : Goal} {before added : Int}
    (h : m.goals id = some goal) (hb : bigInt goal.currentAmount = some before)
    (ha : bigInt amount = some added) :
    (applyContribution id amount).run m =
      (m.putGoal id { goal with currentAmount := .num (before + added) },
        some { goal with currentAmount := .num (before + added) }) := by
  unfold applyContribution
  rw [run_bind_of_some (run_findByOnChainId h), hb, ha]
  rfl

/-- A goal that is reached stays as it is. -/
theorem run_markGoalReachedAndNotify {id : Text} {goal : Goal} (h : m.goals id = some goal) :
    ((markGoalReachedAndNotify id).run m).1 = m.putGoal id { goal with status := .reached } := by
  unfold markGoalReachedAndNotify
  rw [run_bind_of_some (run_findByOnChainId h)]
  split_ifs with hr
  · have hs : { goal with status := .reached } = goal := by rw [← hr]
    simp [hs, ReadModels.putGoal, ← h]
  · rfl

@[simp] theorem putGoal_putGoal (m : ReadModels) (id : Text) (goal goal' : Goal) :
    (m.putGoal id goal).putGoal id goal' = m.putGoal id goal' := by
  simp [ReadModels.putGoal]

@[simp] theorem goals_putGoal_self (m : ReadModels) (id : Text) (goal : Goal) :
    (m.putGoal id goal).goals id = some goal := by
  simp [ReadModels.putGoal]

/-- The row of a goal with the given amount. A target that does not parse is never reached. -/
def Goal.holding (goal : Goal) (amount : Int) : Goal :=
  { goal with
    currentAmount := .num amount
    status := if (bigInt goal.targetAmount).any (· ≤ amount) then .reached else goal.status }

theorem run_contribute {id amount : Text} {goal : Goal} {before added : Int}
    (h : m.goals id = some goal) (hb : bigInt goal.currentAmount = some before)
    (ha : bigInt amount = some added) :
    ((contribute id amount).run m).1 = m.putGoal id (goal.holding (before + added)) := by
  unfold contribute Goal.holding
  rw [run_bind_of_some (run_applyContribution h hb ha)]
  simp only [bigInt_num, bind_orThrow_some]
  cases ht : bigInt goal.targetAmount with
  | none => rfl
  | some target =>
    simp only [bind_orThrow_some, Option.any_some, decide_eq_true_eq]
    split_ifs with hr
    · rw [run_markGoalReachedAndNotify (goals_putGoal_self _ _ _), putGoal_putGoal]
    · rfl

theorem run_createPlan_of_none {id : Text} (h : m.plans id = none) (owner balance : Text)
    (date : Int) :
    (createPlan id owner balance (some date)).run m =
      (m.putPlan id ⟨owner, balance, date⟩, some ()) := by
  unfold createPlan
  rw [run_bind_of_some (run_read _ m)]
  simp only [h, Option.isSome_none, Bool.false_eq_true, if_false]
  exact run_saveRow h.symm

theorem run_upsertYieldPosition (m : ReadModels) (owner shares : Text)
    (exchangeRate : Option Text) :
    (upsertYieldPosition owner shares exchangeRate).run m =
      (m.putPosition owner ⟨shares, exchangeRate.or
        ((m.positions owner).getD ⟨.num 0, none⟩).exchangeRateSnapshot⟩, some ()) := by
  unfold upsertYieldPosition
  rw [run_bind_of_some (run_read _ m)]
  exact run_saveRow rfl

/-! ### What a call can write, whatever is rejected -/

section

variable {R : ReadModels → ReadModels → Prop} (hrf : ∀ m, R m m)
include hrf

theorem writes_saveBalance (account : Text) (loaded : Option Text) (amount : Text)
    (hp : ∀ m, R m (m.putBalance account amount)) :
    (saveBalance account loaded amount).Writes R :=
  (writes_saveRow hrf _ _ hp).bind fun _ => writes_outside hrf

theorem writes_findByOnChainId (id : Text) : (findByOnChainId id).Writes R :=
  (writes_read hrf _).bind fun goal => writes_orThrow goal

theorem writes_applyContribution (id amount : Text) (hp : ∀ m goal, R m (m.putGoal id goal)) :
    (applyContribution id amount).Writes R := by
  refine (writes_findByOnChainId hrf id).bind fun goal => ?_
  refine (writes_orThrow _).bind fun before => ?_
  refine (writes_orThrow _).bind fun added => ?_
  exact (writes_write fun m => hp m _).bind fun _ => trivial

theorem writes_markGoalReachedAndNotify (id : Text) (hp : ∀ m goal, R m (m.putGoal id goal)) :
    (markGoalReachedAndNotify id).Writes R := by
  refine (writes_findByOnChainId hrf id).bind fun goal => ?_
  split_ifs
  · trivial
  · exact (writes_write fun m => hp m _).bind fun _ => writes_outside hrf

theorem writes_contribute (id amount : Text) (hp : ∀ m goal, R m (m.putGoal id goal)) :
    (contribute id amount).Writes R := by
  refine (writes_applyContribution hrf id amount hp).bind fun goal => ?_
  refine (writes_orThrow _).bind fun current => ?_
  refine (writes_orThrow _).bind fun target => ?_
  split_ifs
  · exact writes_markGoalReachedAndNotify hrf id hp
  · trivial

end

def Topic.writesBalances (topic : Topic) : Bool := topic = .deposit || topic = .withdraw

def Topic.writesGoals (topic : Topic) : Bool :=
  topic = .goalCreated || topic = .goalContribution || topic = .goalReached

/-- Each topic has its table. -/
theorem writes_apply {R : ReadModels → ReadModels → Prop} (hrf : ∀ m, R m m) (topic : Topic)
    (data : Payload)
    (hb : topic.writesBalances = true →
      ∀ m account amount, R m (m.putBalance account amount))
    (hg : topic.writesGoals = true → ∀ m id goal, R m (m.putGoal id goal))
    (hgr : topic = .groupSplitSettled → ∀ m id, R m (m.putGroup id ⟨.num 0, true⟩))
    (hp : topic = .lockedCreated → ∀ m id plan, R m (m.putPlan id plan))
    (hps : topic = .deposited → ∀ m owner position, R m (m.putPosition owner position)) :
    (apply topic data).Writes R := by
  cases topic with
  | goalCreated =>
    refine (writes_read hrf _).bind fun existing => ?_
    split_ifs
    · trivial
    · exact writes_saveRow hrf _ _ fun m => hg rfl m _ _
  | goalContribution => exact writes_contribute hrf _ _ fun m goal => hg rfl m _ goal
  | goalReached => exact writes_markGoalReachedAndNotify hrf _ fun m goal => hg rfl m _ goal
  | lockedCreated =>
    refine (writes_read hrf _).bind fun existing => ?_
    split_ifs
    · trivial
    · exact (writes_orThrow _).bind fun date => writes_saveRow hrf _ _ fun m => hp rfl m _ _
  | deposit =>
    refine (writes_read hrf _).bind fun loaded => (writes_orThrow _).bind fun _ => ?_
    exact writes_saveBalance hrf _ _ _ fun m => hb rfl m _ _
  | withdraw =>
    refine (writes_read hrf _).bind fun loaded => ?_
    exact writes_saveBalance hrf _ _ _ fun m => hb rfl m _ _
  | groupSplitSettled =>
    refine (writes_read hrf _).bind fun found => ?_
    simp only
    split_ifs
    · trivial
    · exact (writes_saveRow hrf _ _ fun m => hgr rfl m _).bind fun _ => writes_outside hrf
  | deposited =>
    unfold apply
    simp only
    split_ifs
    · exact (writes_read hrf _).bind fun _ => writes_saveRow hrf _ _ fun m => hps rfl m _ _
    · trivial
  | harvested => exact writes_outside hrf
  | strategyChanged | withdrawClaimed | withdrawRequested | withdrawCancelled | other => trivial

theorem run_markSettledAndNotify (id : Text) :
    ((markSettledAndNotify id).run m).1 =
      if ((m.groups id).getD ⟨.num 0, false⟩).settled then m
      else m.putGroup id ⟨.num 0, true⟩ := by
  unfold markSettledAndNotify
  rw [run_bind_of_some (run_read _ m)]
  simp only
  split_ifs
  · rfl
  · exact (exec_bind_outside_fst _ _ _).trans
      (congrArg Prod.fst (run_saveRow (by rfl)))

variable {topic : Topic} {data : Payload} {faults : List Bool}

theorem apply_balances (h : topic.writesBalances = false) :
    ((apply topic data).exec faults m).1.balances = m.balances :=
  (writes_apply (R := fun m m' => m'.balances = m.balances) (fun _ => rfl) topic data
    (fun hb => absurd hb (by simp [h])) (fun _ _ _ _ => rfl) (fun _ _ _ => rfl)
    (fun _ _ _ _ => rfl) (fun _ _ _ _ => rfl)).exec_eq

theorem apply_goals (h : topic.writesGoals = false) :
    ((apply topic data).exec faults m).1.goals = m.goals :=
  (writes_apply (R := fun m m' => m'.goals = m.goals) (fun _ => rfl) topic data
    (fun _ _ _ _ => rfl) (fun hg => absurd hg (by simp [h])) (fun _ _ _ => rfl)
    (fun _ _ _ _ => rfl) (fun _ _ _ _ => rfl)).exec_eq

theorem apply_plans (h : topic ≠ .lockedCreated) :
    ((apply topic data).exec faults m).1.plans = m.plans :=
  (writes_apply (R := fun m m' => m'.plans = m.plans) (fun _ => rfl) topic data
    (fun _ _ _ _ => rfl) (fun _ _ _ _ => rfl) (fun _ _ _ => rfl)
    (fun hp => absurd hp h) (fun _ _ _ _ => rfl)).exec_eq

theorem apply_positions (h : topic ≠ .deposited) :
    ((apply topic data).exec faults m).1.positions = m.positions :=
  (writes_apply (R := fun m m' => m'.positions = m.positions) (fun _ => rfl) topic data
    (fun _ _ _ _ => rfl) (fun _ _ _ _ => rfl) (fun _ _ _ => rfl)
    (fun _ _ _ _ => rfl) (fun hp => absurd hp h)).exec_eq

/-! ### Events -/

/-- An event as the projection gets it. -/
structure Decoded where
  topic : Topic
  data : Payload

/-- An application of an event, with the operations of it that are rejected. -/
structure Dispatch where
  event : Decoded
  faults : List Bool

def Decoded.handler (e : Decoded) : Service Unit := apply e.topic e.data

/-- The read-models after the event was applied with nothing rejected. -/
def Decoded.applied (e : Decoded) (m : ReadModels) : ReadModels := (e.handler.run m).1

def dispatch (m : ReadModels) (d : Dispatch) : ReadModels := (d.event.handler.exec d.faults m).1

end Stow.Projection
