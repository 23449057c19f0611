import Stow.Vault.Frame

/-! Locked plans along every run: what stays fixed, and how a balance can go down. -/
namespace Stow.Vault

open Stow.Lib Stow.Lib.Contract

/-- The three ways in which a call of the owner may lower the balance of a plan. -/
inductive Released (self : Address) (ctx : Ctx) (s t : Sys World) (id : Nat)
    (plan plan' : LockedPlan) : Op → Prop
  | matured (op : Op) (time : plan.unlockAt ≤ ctx.now) : Released self ctx s t id plan plan' op
  | early (amount penalty : Int) (recipient : Address)
      (opens : plan.createdAt + s.store.minLockPeriod ≤ ctx.now) (locked : ctx.now < plan.unlockAt)
      (decrease : plan.balance - plan'.balance = amount)
      (rate : penalty = amount * s.store.earlyWithdrawPenaltyBps / 10000)
      (target : 0 < penalty → s.store.penaltyTarget = some recipient)
      (paid : t.world.journal = s.world.journal ++
        transfersOf self [(plan.owner, amount - penalty), (recipient, penalty)]) :
      Released self ctx s t id plan plan' (.lockedEarlyWithdraw plan.owner id amount)
  | emergency (mode : s.store.emergencyMode = true) :
      Released self ctx s t id plan plan' (.lockedEmergencyWithdraw plan.owner id)

/-- A plan keeps its owner and its dates, and pays out only to its owner's call. -/
structure PlanHeld (vault : Address) (ctx : Ctx) (op : Op) (s t : Sys World) (id : Nat)
    (plan plan' : LockedPlan) : Prop where
  owner : plan'.owner = plan.owner
  unlockAt : plan'.unlockAt = plan.unlockAt
  createdAt : plan'.createdAt = plan.createdAt
  decrease : plan'.balance < plan.balance →
    plan.owner ∈ ctx.auths ∧ Released vault ctx s t id plan plan' op

/-- Every plan is held through the call, and no balance is negative after it. -/
structure PlansHeld (vault : Address) (ctx : Ctx) (op : Op) (s t : Sys World) : Prop where
  kept : s.store.locked.Forall (fun id plan => ∃ plan', t.store.locked.get id = some plan' ∧
    PlanHeld vault ctx op s t id plan plan')
  nonneg : t.store.locked.Forall (fun _ plan => 0 ≤ plan.balance)

variable {ctx : Ctx} {self : Address} {s t : Sys World} {u : Unit} {op : Op} {id : Nat}
  {plan : LockedPlan}

theorem PlanHeld.refl (plan : LockedPlan) : PlanHeld self ctx op s t id plan plan :=
  ⟨rfl, rfl, rfl, fun h => absurd h (lt_irrefl _)⟩

theorem PlansHeld.same (hs : s.store.locked.Forall (fun _ plan => 0 ≤ plan.balance))
    (h : t.store.locked = s.store.locked) : PlansHeld self ctx op s t where
  kept _ plan hg := ⟨plan, h ▸ hg, .refl plan⟩
  nonneg := h ▸ hs

/-- A call that writes the balance of one plan. -/
theorem PlansHeld.set {balance : Int} (hs : s.store.locked.Forall (fun _ plan => 0 ≤ plan.balance))
    (h : t.store = s.store.setLocked id { plan with balance := balance })
    (hg : s.store.locked.get id = some plan) (hnn : 0 ≤ balance)
    (hl : balance < plan.balance → plan.owner ∈ ctx.auths ∧
      Released self ctx s t id plan { plan with balance := balance } op) :
    PlansHeld self ctx op s t where
  kept j held hj := by
    rw [h]
    simp only [Store.setLocked, SortedMap.get_set]
    split_ifs with hid
    · obtain rfl : plan = held := Option.some.inj (hg.symm.trans (hid ▸ hj))
      exact ⟨_, rfl, rfl, rfl, rfl, hid ▸ hl⟩
    · exact ⟨held, hj, .refl held⟩
  nonneg := by
    rw [h]
    exact hs.set hnn

/-- The transfers of an early withdrawal, in the order they are made. -/
theorem early_journal {w w' w'' : World} {owner recipient : Address} {net penalty : Int}
    (hn : 0 ≤ net) (hp : 0 ≤ penalty) (h : w.payPositive self owner net = some w')
    (h' : w'.payPositive self recipient penalty = some w'') :
    w''.journal = w.journal ++ transfersOf self [(owner, net), (recipient, penalty)] := by
  have hpy : w.payAll self [(owner, net), (recipient, penalty)] = some w'' := by
    unfold World.payPositive at h h'
    simp only [World.payAll]
    split_ifs at h h' ⊢ <;> first | omega | simp_all
  exact World.payAll_journal hpy

theorem exec_plans {freshGoals freshGroups : Prop} (hs : s.store.Sound freshGoals freshGroups)
    (hl : s.store.locked.Forall (fun _ plan => 0 ≤ plan.balance))
    (h : op.exec (exact self) ctx s = .ok (u, t)) : PlansHeld self ctx op s t := by
  cases op with
  | setup admin token =>
    obtain ⟨-, hst, -⟩ := initializeVault_ok h
    exact .same hl (by rw [hst]; rfl)
  | lockedCreate owner amount unlockAt =>
    obtain ⟨_, h⟩ := of_void h
    obtain ⟨-, hps, -, -, rfl, -, -, hst⟩ := lockedCreate_ok h
    refine ⟨?_, ?_⟩
    · intro id plan hg
      have hid : id ≠ s.store.nextLockedId + 1 := by
        have hle : id ≤ s.store.nextLockedId := hs.lockedIds id plan hg
        omega
      refine ⟨plan, ?_, .refl plan⟩
      rw [hst]
      simp only [SortedMap.get_set]
      rw [if_neg hid]
      exact hg
    · rw [hst]
      exact hl.set hps.le
  | lockedTopUp owner planId amount =>
    obtain ⟨-, hps, plan, hg, -, -, hst⟩ := lockedTopUp_ok h
    have hnn : 0 ≤ plan.balance := hl planId plan hg
    exact .set hl hst hg (by omega) (fun hls => absurd hls (by omega))
  | lockedWithdraw owner planId amount =>
    obtain ⟨ha, hps, plan, hg, rfl, hle, htm, -, hst⟩ := lockedWithdraw_ok h
    exact .set hl hst hg (by omega) (fun _ => ⟨ha, .matured _ htm⟩)
  | lockedEarlyWithdraw owner planId amount =>
    obtain ⟨ha, hps, plan, penalty, recipient, w, hg, rfl, hle, hlc, ho, hr, hw, ht, hw', hst⟩ :=
      lockedEarlyWithdraw_ok h
    have hp : 0 ≤ penalty := hr ▸ bpsPart_nonneg hps.le
    have hn : penalty ≤ amount := hr ▸ bpsPart_le hps.le hs.penalty
    refine .set hl hst hg (by omega) (fun _ => ⟨ha, ?_⟩)
    refine .early amount penalty recipient ho hlc (by simp only; omega) ?_ ht ?_
    · rw [hr, bpsPart,
        Int.tdiv_eq_ediv_of_nonneg (mul_nonneg hps.le (Int.natCast_nonneg _))]
    · exact early_journal (by omega) hp hw hw'
  | lockedEmergencyWithdraw owner planId =>
    obtain ⟨ha, hm, plan, hg, rfl, -, -, hst⟩ := lockedEmergencyWithdraw_ok h
    exact .set hl hst hg (le_refl _) (fun _ => ⟨ha, .emergency hm⟩)
  | _ => exact .same hl (congrArg Prod.fst ((exec_frame h).plans rfl))

/-- The step holds every plan: fixed owner and dates, and no decrease but a release. -/
def LocksHold (self : Address) (s : Sys World) (e : Move) : Prop :=
  ∀ id plan, s.store.locked.get id = some plan →
    ∃ plan', (step self s e).store.locked.get id = some plan' ∧
      plan'.owner = plan.owner ∧ plan'.unlockAt = plan.unlockAt ∧
      plan'.createdAt = plan.createdAt ∧
      (plan'.balance < plan.balance → ∃ ctx op, e = .call ctx op ∧ plan.owner ∈ ctx.auths ∧
        Released self ctx s (step self s e) id plan plan' op)

/-- Sound records, and no plan below zero. -/
structure Sys.Locks (s : Sys World) : Prop where
  sound : s.store.Sound False False
  nonneg : s.store.locked.Forall (fun _ plan => 0 ≤ plan.balance)

theorem locks_step (s : Sys World) (e : Move) (hs : s.Locks) : (step self s e).Locks :=
  step_induction (I := Sys.Locks) (P := fun _ _ => True)
    (fun _ _ _ _ _ hs _ h => ⟨exec_sound hs.sound False.elim False.elim h,
      (exec_plans hs.sound hs.nonneg h).nonneg⟩)
    (fun _ _ _ _ hs => ⟨hs.sound, hs.nonneg⟩) s e hs trivial

theorem locksHold (s : Sys World) (e : Move) (hs : s.Locks) : LocksHold self s e := by
  intro id plan hg
  cases e with
  | wallet source target amount =>
    exact ⟨plan, hg, rfl, rfl, rfl, fun h => absurd h (lt_irrefl _)⟩
  | call ctx op =>
    rcases Call.after_cases (op.exec (exact self) ctx) s with ⟨u, t, hok, ht⟩ | ⟨-, ht⟩
    · obtain ⟨plan', hg', hh⟩ := (exec_plans hs.sound hs.nonneg hok).kept id plan hg
      simp only [step, ht]
      refine ⟨plan', hg', hh.owner, hh.unlockAt, hh.createdAt, ?_⟩
      intro hl
      exact ⟨ctx, op, rfl, hh.decrease hl⟩
    · simp only [step, ht]
      exact ⟨plan, hg, rfl, rfl, rfl, fun h => absurd h (lt_irrefl _)⟩

/-- In every run: no plan is ever below zero, and every step holds every plan. -/
theorem time_lock (self : Address) (tokens : Ledger Address) (es : List Move) :
    AllStates (step self) (fun s => s.store.locked.Forall (fun _ plan => 0 ≤ plan.balance))
        (.deployed tokens) es ∧
      AllSteps (step self) (LocksHold self) (.deployed tokens) es := by
  have hst : (Sys.deployed tokens).Locks := ⟨deployed_sound, .empty⟩
  have ha : AllSteps (step self) (fun _ _ => True) (.deployed tokens) es := AllSteps.trivial es
  exact ⟨(invariant_allStates (fun s e hs _ => locks_step s e hs) hst ha).mono
      (fun _ hs => hs.nonneg),
    invariant_allSteps (fun s e hs _ => locks_step s e hs) (fun s e hs _ => locksHold s e hs)
      hst ha⟩

end Stow.Vault
