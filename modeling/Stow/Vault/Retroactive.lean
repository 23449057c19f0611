import Stow.Vault.RewardAccrual

/-! Whether a deposit or a withdrawal changes the rewards of periods that are already over. -/
namespace Stow.Vault

open Stow.Lib Stow.Lib.Contract

/-! ### Rewards rest on an account -/

/-- Only users with an interest account have a reward state. -/
def Store.Anchored (st : Store) : Prop :=
  ∀ owner, st.interestAccounts.get owner = none → st.rewardStates.get owner = none

theorem RewardRole.Effect.anchored {role : RewardRole} {ctx : Ctx} {owner : Address} {a b : Store}
    (h : role.Effect ctx owner a b)
    (ha : a.interestAccounts.get owner = none → a.rewardStates.get owner = none)
    (hb : b.interestAccounts.get owner = none) : b.rewardStates.get owner = none := by
  cases role with
  | ping =>
    obtain ⟨account, -, hg, -⟩ := h
    exact absurd (hg.symm.trans hb) nofun
  | move =>
    obtain ⟨account, hg, -⟩ := h
    exact absurd (hg.symm.trans hb) nofun
  | settle =>
    obtain ⟨hsm, paid, ⟨hn, hs⟩ | ⟨account, _, _, hg, -⟩⟩ := h
    · rw [hs, ha hn]
      rfl
    · exact absurd (hg.symm.trans (hsm.symm.trans hb)) nofun
  | other =>
    obtain ⟨hs, ho⟩ := h
    rw [hb, Option.map_none] at ho
    rw [hs]
    exact ha (Option.map_eq_none_iff.mp ho.symm)

theorem anchored_run (self : Address) (tokens : Ledger Address) (es : List Move) :
    (runFrom (step self) (.deployed tokens) es).store.Anchored := by
  refine invariant_reachable (I := fun s : Sys World => s.store.Anchored) (fun s e hs => ?_)
    (fun _ _ => rfl) es
  refine step_induction (P := fun _ _ => True) (I := fun s : Sys World => s.store.Anchored) ?_ ?_
    s e hs trivial
  · intro ctx op s t u hs _ h owner hb
    exact (exec_effect owner h).anchored (hs owner) hb
  · intro source target amount s hs
    exact hs

/-! ### An extra deposit or withdrawal -/

/-- A change of the principal by its owner. -/
inductive PrincipalMove where
  | deposit (amount : Int)
  | withdraw (amount : Int)
  deriving Repr, DecidableEq

def PrincipalMove.exec {W : Type} (H : Host W) (ctx : Ctx) (owner : Address) :
    PrincipalMove → Action W Unit
  | .deposit amount => interestDeposit H ctx owner amount
  | .withdraw amount => interestWithdraw H ctx owner amount

/-- What the move makes of a settled principal. -/
def PrincipalMove.apply (principal : Int) : PrincipalMove → Int
  | .deposit amount => principal + amount
  | .withdraw amount => principal - amount

/-- The streak that the first elapsed period is paid at. -/
def RewardState.firstStreak (state : RewardState) (config : RewardsConfig) : Nat :=
  if state.streakPeriodKept ∧ state.lastAccruedAt + config.accrualPeriodSeconds ≤
      state.windowEnd config then saturatingAddU32 state.streak 1
  else 0

/-- The call is the first activity in a window that is still open. -/
def Store.SavesWindow (st : Store) (owner : Address) (now : Nat) : Prop :=
  ∃ state, st.rewardStates.get owner = some state ∧ state.streakPeriodKept = false ∧
    now ≤ state.windowEnd st.rewardsConfig

/-- When a principal earns for the elapsed periods what the account's own principal does: no
period has elapsed; or both parts of the reward round to the same; or, if the move itself saves
the streak, what the streak then earns makes up for the rest. -/
def Store.EarnsSame (st : Store) (owner : Address) (account : InterestAccount) (principal : Int)
    (now : Nat) : Prop :=
  let state := st.rewardStateOf owner account
  let periods := state.periodsAt st.rewardsConfig now
  let loyalty (p : Int) := loyaltyReward st.rewardsConfig p
    (loyaltyMultiplierBps (now - account.createdAt) st.rewardsConfig)
  let streak (p : Int) := streakReward st.rewardsConfig p (state.firstStreak st.rewardsConfig)
  periods = 0 ∨
    (¬st.SavesWindow owner now ∧ loyalty principal = loyalty account.principal ∧
      streak principal = streak account.principal) ∨
    (st.SavesWindow owner now ∧ periods * loyalty principal +
      streakReward st.rewardsConfig principal (saturatingAddU32 state.streak 1) =
        periods * loyalty account.principal)

variable {ctx : Ctx} {self owner : Address} {s t : Sys World} {u : Unit} {config : RewardsConfig}
  {state : RewardState}

theorem PrincipalMove.exec_writes {m : PrincipalMove}
    (h : m.exec (exact self) ctx owner s = .ok (u, t)) :
    ∃ settled credited,
      settle (s.store.interestOf owner ctx.now) ctx.now = some (settled, credited) ∧
      t.store = (s.store.setInterest owner
        (settled.adopt s.store (m.apply settled.principal) ctx.now)).noteTouch owner ctx.now := by
  cases m with
  | deposit amount =>
    obtain ⟨-, -, settled, credited, _, hs, -, hst, -⟩ := interestDeposit_ok h
    exact ⟨settled, credited, hs, hst⟩
  | withdraw amount =>
    obtain ⟨-, account, settled, credited, _, hg, hs, -, -, hst, -⟩ := interestWithdraw_ok h
    exact ⟨settled, credited, (interestOf_some ctx.now hg).symm ▸ hs, hst⟩

theorem roll_streak (periodEnd : Nat) :
    (state.roll config periodEnd).streak =
      if state.streakPeriodKept ∧ periodEnd ≤ state.windowEnd config then
        saturatingAddU32 state.streak 1
      else 0 := by
  unfold RewardState.roll
  by_cases he : state.windowEnd config < periodEnd
  · rw [if_pos he, if_neg (fun h => absurd h.2 (not_le.mpr he))]
  · rw [if_neg he]
    by_cases hk : state.streakPeriodKept = true
    · rw [if_pos hk, if_pos ⟨hk, not_lt.mp he⟩]
    · rw [if_neg hk, if_neg (fun h => absurd h.1 hk)]

variable {now : Nat}

/-- With a period elapsed, the first one ends where the clock says. -/
theorem firstStreakReward_eq (principal : Int) (hn : now ≤ u64Max)
    (h : state.periodsAt config now ≠ 0) :
    firstStreakReward config principal (state.periodsAt config now) 0 state =
        streakReward config principal (state.firstStreak config) ∧
      state.lastAccruedAt + config.accrualPeriodSeconds ≤ now := by
  have he : config.accrualPeriodSeconds ≤ now - state.lastAccruedAt := by
    by_contra hlt
    exact h (Nat.div_eq_of_lt (not_le.mp hlt))
  have hp : state.lastAccruedAt ≤ now := by
    by_contra hl
    refine h ?_
    rw [RewardState.periodsAt, Nat.sub_eq_zero_of_le (not_le.mp hl).le, Nat.zero_div]
  have hen : periodEndAt config state 0 = state.lastAccruedAt + config.accrualPeriodSeconds := by
    unfold periodEndAt saturatingAddU64 saturatingMulU64
    rw [Nat.zero_mul]
    omega
  refine ⟨?_, by omega⟩
  rw [firstStreakReward, if_neg h, roll_streak, hen]
  rfl

/-- The reward state that an accrual right after the move reads. -/
def Store.touchedState (st : Store) (owner : Address) (account : InterestAccount) (now : Nat) :
    RewardState :=
  ((st.rewardStates.get owner).map (·.touch st.rewardsConfig now)).getD
    (.fresh owner account.createdAt)

variable {st : Store}

theorem touchedState_of_not_saves {account : InterestAccount} (h : ¬st.SavesWindow owner now) :
    st.touchedState owner account now = st.rewardStateOf owner account := by
  unfold Store.touchedState Store.rewardStateOf
  cases hg : st.rewardStates.get owner with
  | none => rfl
  | some state =>
    simp only [Option.map_some, Option.getD_some, RewardState.touch]
    split_ifs with hin
    · have hk : state.streakPeriodKept = true := by
        by_contra hk
        exact h ⟨state, hg, Bool.not_eq_true _ ▸ hk, hin⟩
      rw [← hk]
    · rfl

theorem touchedState_of_saves (account : InterestAccount) (h : st.SavesWindow owner now) :
    (st.rewardStateOf owner account).streakPeriodKept = false ∧
      now ≤ (st.rewardStateOf owner account).windowEnd st.rewardsConfig ∧
      st.touchedState owner account now =
        { st.rewardStateOf owner account with streakPeriodKept := true } := by
  obtain ⟨state, hg, hk, hin⟩ := h
  simp only [Store.touchedState, Store.rewardStateOf, hg, Option.map_some, Option.getD_some,
    RewardState.touch, if_pos hin, and_true]
  exact ⟨hk, hin⟩

/-- Two parts that grow together have the same sum only if they are the same. -/
theorem sum_eq_iff {n : Nat} {a b c d : Int} (hn : n ≠ 0)
    (h : (a ≤ b ∧ c ≤ d) ∨ (b ≤ a ∧ d ≤ c)) : n * b + d = n * a + c ↔ b = a ∧ d = c := by
  have hp : (0 : Int) < n := by omega
  constructor
  · intro hs
    have hm : (n : Int) * (b - a) = c - d := by linarith
    rcases h with ⟨hab, hcd⟩ | ⟨hba, hdc⟩
    · have hle : 0 ≤ (n : Int) * (b - a) := mul_nonneg hp.le (by omega)
      have hz : (n : Int) * (b - a) = 0 := by omega
      have hab := (mul_eq_zero.mp hz).resolve_left hp.ne'
      omega
    · have hle : (n : Int) * (b - a) ≤ 0 := mul_nonpos_of_nonneg_of_nonpos hp.le (by omega)
      have hz : (n : Int) * (b - a) = 0 := by omega
      have hab := (mul_eq_zero.mp hz).resolve_left hp.ne'
      omega
  · rintro ⟨rfl, rfl⟩
    rfl

/-- The two accruals compared, for a user with an account. -/
theorem accrued_eq_iff {account account₁ : InterestAccount} {principal : Int}
    {settled settled₁ : RewardState} {accrued accrued₁ : Int} (hn : now ≤ u64Max)
    (hpr : account₁.principal = principal)
    (hc : account₁.createdAt = account.createdAt)
    (hp : (st.rewardStateOf owner account).accrue st.rewardsConfig account now =
      some (settled, accrued))
    (he : (st.touchedState owner account now).accrue st.rewardsConfig account₁ now =
      some (settled₁, accrued₁)) :
    accrued₁ = accrued ↔ st.EarnsSame owner account principal now := by
  have hp := (accrue_some hp).2.1
  have he := (accrue_some he).2.1
  have hl : (st.touchedState owner account now).periodsAt st.rewardsConfig now =
      (st.rewardStateOf owner account).periodsAt st.rewardsConfig now := by
    by_cases hs : st.SavesWindow owner now
    · rw [(touchedState_of_saves account hs).2.2]
      rfl
    · rw [touchedState_of_not_saves hs]
  rw [hpr, hc] at he
  unfold Store.EarnsSame
  by_cases hz : (st.rewardStateOf owner account).periodsAt st.rewardsConfig now = 0
  · rw [hl, hz] at he
    rw [hz] at hp
    simp only [hp, he, hz, firstStreakReward, if_true, true_or]
    simp
  · obtain ⟨hf, hps⟩ := firstStreakReward_eq account.principal hn hz
    have hzero₁ := hl ▸ hz
    obtain ⟨hfirst₁, -⟩ := firstStreakReward_eq principal hn hzero₁
    rw [hf] at hp
    rw [hfirst₁, hl] at he
    rw [hp, he]
    simp only [hz, false_or]
    by_cases hs : st.SavesWindow owner now
    · -- the window was open and not kept: the move earns the streak that was lost without it
      obtain ⟨hkp, hin, ht⟩ := touchedState_of_saves account hs
      have hls : (st.rewardStateOf owner account).firstStreak st.rewardsConfig = 0 := by
        rw [RewardState.firstStreak, if_neg (by rw [hkp]; simp)]
      have hk : (st.touchedState owner account now).firstStreak st.rewardsConfig =
          saturatingAddU32 (st.rewardStateOf owner account).streak 1 := by
        rw [ht, RewardState.firstStreak, if_pos ⟨rfl, hps.trans hin⟩]
      rw [hls, hk, streakReward_zero, add_zero]
      simp only [hs, not_true_eq_false, false_and, true_and, false_or]
    · rw [touchedState_of_not_saves hs]
      simp only [hs, not_false_eq_true, true_and, false_and, or_false]
      refine sum_eq_iff hz ?_
      rcases le_total account.principal principal with hle | hle
      · exact .inl ⟨loyaltyReward_mono hle, streakReward_mono hle⟩
      · exact .inr ⟨loyaltyReward_mono hle, streakReward_mono hle⟩

theorem noteTouch_rewardStateOf {account account₁ : InterestAccount}
    (hc : account₁.createdAt = account.createdAt) :
    ((st.setInterest owner account₁).noteTouch owner now).rewardStateOf owner account₁ =
      st.touchedState owner account now := by
  rw [Store.rewardStateOf, noteTouch_get, if_pos rfl, hc]
  rfl

theorem noteTouch_rewardsConfig (st : Store) (now : Nat) :
    (st.noteTouch owner now).rewardsConfig = st.rewardsConfig := by
  unfold Store.noteTouch
  cases st.rewardStates.get owner <;> rfl

/-- A state that starts now has no period to pay. -/
theorem accrue_fresh {config : RewardsConfig} {account : InterestAccount} {settled : RewardState}
    {accrued : Int}
    (h : (RewardState.fresh owner now).accrue config account now = some (settled, accrued)) :
    accrued = 0 := by
  have hp : (RewardState.fresh owner now).periodsAt config now = 0 := by
    rw [RewardState.periodsAt, RewardState.fresh, Nat.sub_self, Nat.zero_div]
  have hr := (accrue_some h).2.1
  rw [hp] at hr
  simpa [firstStreakReward] using hr

/-- A deposit or withdrawal right before an accrual leaves the reward of the elapsed periods as it
was exactly when the new principal earns the same for them. -/
theorem accrual_after_move_iff (self : Address) (tokens : Ledger Address) (es : List Move)
    (m : PrincipalMove) (ctx : Ctx) (owner : Address) (u : Unit) (accrued accrued₁ : Int)
    (moved t t₁ : Sys World) (hnow : ctx.now ≤ u64Max)
    (hmove : m.exec (exact self) ctx owner (runFrom (step self) (.deployed tokens) es) =
      .ok (u, moved))
    (hplain : rewardsAccrue ctx owner (runFrom (step self) (.deployed tokens) es) =
      .ok (accrued, t))
    (hextra : rewardsAccrue ctx owner moved = .ok (accrued₁, t₁)) :
    accrued₁ = accrued ↔ ∀ account settled credited,
      (runFrom (step self) (.deployed tokens) es).store.interestAccounts.get owner = some account →
      settle account ctx.now = some (settled, credited) →
      (runFrom (step self) (.deployed tokens) es).store.EarnsSame owner account
        (m.apply settled.principal) ctx.now := by
  have ha := anchored_run self tokens es owner
  generalize runFrom (step self) (.deployed tokens) es = s at *
  obtain ⟨settled, credited, hs, hm⟩ := PrincipalMove.exec_writes hmove
  have haccount₁ : moved.store.interestAccounts.get owner =
      some (settled.adopt s.store (m.apply settled.principal) ctx.now) := by
    rw [hm, noteTouch_interestAccounts]
    exact SortedMap.get_set_self _ _ _
  have hcn : moved.store.rewardsConfig = s.store.rewardsConfig := by
    rw [hm, noteTouch_rewardsConfig]
    rfl
  obtain ⟨state₁, hextra, -⟩ := rewardsAccrue_opened hextra haccount₁
  rw [hcn] at hextra
  cases hg : s.store.interestAccounts.get owner with
  | none =>
    -- an account opened by this very deposit has no past
    have hc : settled.createdAt = ctx.now := by
      rw [settle_createdAt hs, Store.interestOf, hg]
      rfl
    have hst : moved.store.rewardStateOf owner
        (settled.adopt s.store (m.apply settled.principal) ctx.now) = .fresh owner ctx.now := by
      rw [Store.rewardStateOf, hm, noteTouch_get, if_pos rfl]
      change ((s.store.rewardStates.get owner).map _).getD
        (RewardState.fresh owner settled.createdAt) = _
      rw [ha hg, hc]
      rfl
    rw [hst] at hextra
    simp [accrue_fresh hextra, (rewardsAccrue_unopened hplain hg).1]
  | some account =>
    obtain ⟨state, hplain, -⟩ := rewardsAccrue_opened hplain hg
    rw [interestOf_some ctx.now hg] at hs
    have hc : (settled.adopt s.store (m.apply settled.principal) ctx.now).createdAt =
        account.createdAt := by
      rw [← settle_createdAt hs]
      rfl
    rw [hm, noteTouch_rewardStateOf hc] at hextra
    rw [accrued_eq_iff hnow rfl hc hplain hextra]
    constructor
    · intro h account' settled' credited' hg' hs'
      obtain rfl := Option.some.inj hg'
      obtain ⟨rfl, rfl⟩ := Prod.mk.inj (Option.some.inj (hs.symm.trans hs'))
      exact h
    · intro h
      exact h account settled credited rfl hs

/-- One more unit after a week does not change the rounded reward of that week. -/
theorem accrual_after_move_unit :
    let ctx : Ctx := ⟨604800, 0, [2]⟩
    let moved := ((PrincipalMove.deposit 1).exec (exact 0) ctx 2).after opened
    (rewardsAccrue ctx 2 opened).toOption.map Prod.fst = some 5000 ∧
      (rewardsAccrue ctx 2 moved).toOption.map Prod.fst = some 5000 ∧
      ((5000 : Int) = 5000 ↔ ∀ account settled credited,
        opened.store.interestAccounts.get 2 = some account →
        settle account 604800 = some (settled, credited) →
        opened.store.EarnsSame 2 account
          ((PrincipalMove.deposit 1).apply settled.principal) 604800) := by
  have hm := Call.after_of_succeeds
    (x := (PrincipalMove.deposit 1).exec (exact 0) ⟨604800, 0, [2]⟩ 2) (s := opened)
    (by decide +kernel)
  have hp : (rewardsAccrue ⟨604800, 0, [2]⟩ 2 opened).toOption.map Prod.fst = some 5000 := by
    decide +kernel
  have he : (rewardsAccrue ⟨604800, 0, [2]⟩ 2 (((PrincipalMove.deposit 1).exec (exact 0)
      ⟨604800, 0, [2]⟩ 2).after opened)).toOption.map Prod.fst = some 5000 := by
    decide +kernel
  exact ⟨hp, he, accrual_after_move_iff 0 purse openedRun (.deposit 1) ⟨604800, 0, [2]⟩ 2
    () 5000 5000 _ _ _ (by decide) hm (Call.ok_of_result hp) (Call.ok_of_result he)⟩

/-- After a week, a deposit made right before the accrual is paid for the week before it. -/
theorem deposit_earns_the_past :
    let ctx : Ctx := ⟨604800, 0, [2]⟩
    let moved := ((PrincipalMove.deposit 900000).exec (exact 0) ctx 2).after opened
    (rewardsAccrue ctx 2 opened).toOption.map Prod.fst = some 5000 ∧
      (rewardsAccrue ctx 2 moved).toOption.map Prod.fst = some 50000 := by
  decide +kernel

end Stow.Vault
