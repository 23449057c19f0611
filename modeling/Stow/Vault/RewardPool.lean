import Stow.Vault.RewardAccrual

/-! The reward pool along every run: what was funded, accrued and paid. -/
namespace Stow.Vault

open Stow.Lib Stow.Lib.Contract

/-- Every funding of the pool, and every accrual and payout with its user. -/
structure RewardBook where
  funded : List Int
  accrued : List (Address × Int)
  paid : List (Address × Int)

/-- What the entries of a user add up to. -/
def amountTo (owner : Address) (entries : List (Address × Int)) : Int :=
  ((entries.filter (·.1 = owner)).map (·.2)).sum

/-- What an accrual for the user would add now. -/
def accruedBy (ctx : Ctx) (user : Address) (s : Sys World) : Int :=
  match rewardsAccrue ctx user s with
  | .ok (accrued, _) => accrued
  | .error _ => 0

def rewardNote (self : Address) (s : Sys World) (e : Move) (b : RewardBook) : RewardBook :=
  match e with
  | .call ctx (.rewardsFundPool caller amount) =>
    match rewardsFundPool (exact self) ctx caller amount s with
    | .ok _ => { b with funded := amount :: b.funded }
    | .error _ => b
  | .call ctx (.config (.rewardsAccrue user)) =>
    match rewardsAccrue ctx user s with
    | .ok (accrued, _) => { b with accrued := (user, accrued) :: b.accrued }
    | .error _ => b
  | .call ctx (.rewardsClaim user) =>
    match rewardsClaim (exact self) ctx user s with
    | .ok (payout, _) => { b with
        accrued := (user, accruedBy ctx user s) :: b.accrued
        paid := (user, payout) :: b.paid }
    | .error _ => b
  | _ => b

def Store.pendingOf (st : Store) (owner : Address) : Int :=
  (st.rewardStates.get owner).elim 0 (·.pending)

/-- The pool holds what was funded and not paid, and each user what was accrued and not paid. -/
structure PoolSafe (p : Sys World × RewardBook) : Prop where
  pool : p.1.store.rewardPoolBalance = p.2.funded.sum - (p.2.paid.map (·.2)).sum
  solvent : 0 ≤ p.1.store.rewardPoolBalance
  pending : ∀ owner, p.1.store.pendingOf owner =
    amountTo owner p.2.accrued - amountTo owner p.2.paid
  entitled : ∀ owner, 0 ≤ p.1.store.pendingOf owner

/-- A claim pays the smaller of what is pending after settling and the pool, and takes exactly
that off both. -/
def ClaimExact (self : Address) (p : Sys World × RewardBook) (e : Move) : Prop :=
  match e with
  | .call ctx (.rewardsClaim user) =>
    ∀ payout t, rewardsClaim (exact self) ctx user p.1 = .ok (payout, t) →
      payout = min (p.1.store.pendingOf user + accruedBy ctx user p.1)
          p.1.store.rewardPoolBalance ∧
        t.store.pendingOf user = p.1.store.pendingOf user + accruedBy ctx user p.1 - payout ∧
        t.store.rewardPoolBalance = p.1.store.rewardPoolBalance - payout ∧
        p.1.world.payPositive self user payout = some t.world
  | _ => True

variable {ctx : Ctx} {self : Address} {s t : Sys World} {u : Unit} {op : Op} {b : RewardBook}

/-! ### One call -/

theorem amountTo_cons (owner user : Address) (amount : Int) (entries : List (Address × Int)) :
    amountTo owner ((user, amount) :: entries) =
      (if owner = user then amount else 0) + amountTo owner entries := by
  unfold amountTo
  by_cases h : user = owner
  · subst h
    simp
  · simp [h, Ne.symm h]

theorem rewardStateOf_pending (st : Store) (owner : Address) (account : InterestAccount) :
    (st.rewardStateOf owner account).pending = st.pendingOf owner := by
  unfold Store.rewardStateOf Store.pendingOf
  cases st.rewardStates.get owner <;> rfl

theorem setRewardState_pendingOf (st : Store) (user owner : Address) (state : RewardState) :
    (st.setRewardState user state).pendingOf owner =
      if owner = user then state.pending else st.pendingOf owner := by
  rw [Store.pendingOf, setRewardState_get]
  split_ifs <;> rfl

theorem touch_pending (state : RewardState) (config : RewardsConfig) (now : Nat) :
    (state.touch config now).pending = state.pending := by
  unfold RewardState.touch
  split_ifs <;> rfl

/-- Only settling changes what is pending. -/
theorem RewardRole.Effect.pendingOf {role : RewardRole} {owner : Address} {a c : Store}
    (h : role.Effect ctx owner a c) (hr : role ≠ .settle) :
    c.pendingOf owner = a.pendingOf owner := by
  cases role with
  | ping =>
    obtain ⟨account, -, -, hs⟩ := h
    rw [Store.pendingOf, hs, ← rewardStateOf_pending a owner account]
    exact touch_pending _ _ _
  | move =>
    obtain ⟨account, -, -, hs⟩ := h
    rw [Store.pendingOf, hs, Store.pendingOf]
    cases a.rewardStates.get owner with
    | none => rfl
    | some state => exact touch_pending _ _ _
  | settle => exact absurd rfl hr
  | other => rw [Store.pendingOf, h.1, Store.pendingOf]

theorem rewardsAccrue_pendingOf {user : Address} {accrued : Int}
    (h : rewardsAccrue ctx user s = .ok (accrued, t)) :
    0 ≤ accrued ∧ ∀ owner, t.store.pendingOf owner =
      s.store.pendingOf owner + if owner = user then accrued else 0 := by
  rcases (rewardsAccrue_ok h).2 with ⟨-, rfl, hs⟩ | ⟨account, state, -, ha, hs⟩
  · exact ⟨le_refl 0, fun owner => by rw [hs, ite_self, add_zero]⟩
  · refine ⟨accrue_nonneg ha, fun owner => ?_⟩
    have hpn := (accrue_some ha).1
    rw [rewardStateOf_pending] at hpn
    rw [hs, setRewardState_pendingOf]
    split_ifs with ho
    · rw [ho, hpn]
    · rw [add_zero]

/-- A claim in full: the accrual in it, the payout, and what is left. -/
theorem rewardsClaim_exact {user : Address} {payout : Int}
    (hpl : 0 ≤ s.store.rewardPoolBalance) (hpd : 0 ≤ s.store.pendingOf user)
    (h : rewardsClaim (exact self) ctx user s = .ok (payout, t)) :
    0 ≤ accruedBy ctx user s ∧
      payout = min (s.store.pendingOf user + accruedBy ctx user s) s.store.rewardPoolBalance ∧
      (∀ owner, t.store.pendingOf owner = s.store.pendingOf owner +
        if owner = user then accruedBy ctx user s - payout else 0) ∧
      t.store.rewardPoolBalance = s.store.rewardPoolBalance - payout ∧
      s.world.payPositive self user payout = some t.world := by
  obtain ⟨accrued, s₁, ha, hc⟩ := rewardsClaim_writes h
  obtain ⟨hnn, hpn⟩ := rewardsAccrue_pendingOf ha
  have hac : accruedBy ctx user s = accrued := by rw [accruedBy, ha]
  have hs : s₁.store.pendingOf user = s.store.pendingOf user + accrued :=
    (hpn user).trans (by rw [if_pos rfl])
  rw [hac]
  refine ⟨hnn, ?_⟩
  rcases hc with ⟨rfl, rfl, hn⟩ | ⟨state, hst, hpy, hps, hpa, hsr⟩
  · -- nothing was paid, since nothing was pending or the pool was empty
    obtain ⟨states, hss⟩ := rewardsAccrue_states ha
    have hz : s.store.pendingOf user + accrued ≤ 0 ∨ s.store.rewardPoolBalance ≤ 0 := by
      refine hn.imp_left (fun hle => ?_)
      rw [← hs, Store.pendingOf]
      cases hg : t.store.rewardStates.get user with
      | none => exact le_refl 0
      | some state => simpa [hg] using hle
    refine ⟨by omega, fun owner => ?_, by rw [hss, sub_zero]; rfl, ?_⟩
    · rw [hpn owner, sub_zero]
    · rw [(rewardsAccrue_ok ha).1, World.payPositive, if_neg (lt_irrefl 0)]
  · have hg : s₁.store.pendingOf user = state.pending := by rw [Store.pendingOf, hst]; rfl
    refine ⟨by rw [hpy, ← hg, hs], fun owner => ?_, by rw [hsr]; rfl,
      by rw [World.payPositive, if_pos hps, hpa]⟩
    rw [hsr, setRewardState_pendingOf]
    split_ifs with ho
    · subst ho
      show state.pending - payout = _
      rw [← hg, hs]
      ring
    · rw [add_zero]
      exact (hpn owner).trans (by rw [if_neg ho, add_zero])

/-! ### Every run -/

/-- A call that neither funds, settles nor pays. -/
def Op.leavesPool : Op → Bool
  | .config (.rewardsAccrue _) | .rewardsFundPool _ _ | .rewardsClaim _ => false
  | _ => true

theorem exec_pool (hop : op.leavesPool = true) (h : op.exec (exact self) ctx s = .ok (u, t)) :
    t.store.rewardPoolBalance = s.store.rewardPoolBalance := by
  cases op with
  | config op => exact (ConfigOp.exec_ok h).1.rewardPoolBalance
  | interestDeposit owner amount =>
    obtain ⟨-, -, _, _, _, -, -, -, hs⟩ := interestDeposit_ok h
    rw [hs]
    rfl
  | interestWithdraw owner amount =>
    obtain ⟨-, _, _, _, _, -, -, -, -, -, hs⟩ := interestWithdraw_ok h
    rw [hs]
    rfl
  | rewardsFundPool | rewardsClaim => exact absurd hop Bool.false_ne_true
  | _ =>
    have hr := (exec_frame h).rewards rfl
    simp only [Store.rewardRecords, Prod.mk.injEq] at hr
    exact hr.2.1

theorem rewardRole_ne_settle (owner : Address) (hop : op.leavesPool = true) :
    op.rewardRole owner ≠ .settle := by
  cases op with
  | config op =>
    cases op with
    | rewardsAccrue user => exact absurd hop Bool.false_ne_true
    | rewardsPing user =>
      simp only [Op.rewardRole]
      split_ifs <;> decide
    | _ => exact RewardRole.noConfusion
  | interestDeposit | interestWithdraw =>
    simp only [Op.rewardRole]
    split_ifs <;> decide
  | rewardsClaim user => exact absurd hop Bool.false_ne_true
  | _ => exact RewardRole.noConfusion

theorem rewardNote_other (hop : op.leavesPool = true) :
    rewardNote self s (.call ctx op) b = b := by
  cases op with
  | config op =>
    cases op with
    | rewardsAccrue user => exact absurd hop Bool.false_ne_true
    | _ => rfl
  | rewardsFundPool | rewardsClaim => exact absurd hop Bool.false_ne_true
  | _ => rfl

section

variable (hp : PoolSafe (s, b))

include hp

theorem PoolSafe.same (hpl : t.store.rewardPoolBalance = s.store.rewardPoolBalance)
    (hpn : ∀ owner, t.store.pendingOf owner = s.store.pendingOf owner) :
    PoolSafe (t, b) where
  pool := hpl.trans hp.pool
  solvent := hpl ▸ hp.solvent
  pending owner := (hpn owner).trans (hp.pending owner)
  entitled owner := hpn owner ▸ hp.entitled owner

theorem pool_other (hop : op.leavesPool = true) (h : op.exec (exact self) ctx s = .ok (u, t)) :
    PoolSafe (t, rewardNote self s (.call ctx op) b) := by
  rw [rewardNote_other hop]
  refine hp.same (exec_pool hop h) (fun owner => ?_)
  exact (exec_effect owner h).pendingOf (rewardRole_ne_settle owner hop)

theorem pool_fund {caller : Address} {amount : Int}
    (h : rewardsFundPool (exact self) ctx caller amount s = .ok (u, t)) :
    PoolSafe (t, { b with funded := amount :: b.funded }) := by
  obtain ⟨-, hps, -, hst⟩ := rewardsFundPool_ok h
  have hpl : t.store.rewardPoolBalance = s.store.rewardPoolBalance + amount := by
    rw [hst]
    rfl
  have hpn : ∀ owner, t.store.pendingOf owner = s.store.pendingOf owner := by
    intro owner
    rw [hst]
    rfl
  have hold : s.store.rewardPoolBalance = b.funded.sum - (b.paid.map (·.2)).sum := hp.pool
  have hs : 0 ≤ s.store.rewardPoolBalance := hp.solvent
  refine ⟨?_, ?_, fun owner => (hpn owner).trans (hp.pending owner),
    fun owner => hpn owner ▸ hp.entitled owner⟩
  · show t.store.rewardPoolBalance = (amount :: b.funded).sum - (b.paid.map (·.2)).sum
    rw [hpl, hold, List.sum_cons]
    ring
  · show 0 ≤ t.store.rewardPoolBalance
    omega

theorem pool_accrue {user : Address} {accrued : Int}
    (h : rewardsAccrue ctx user s = .ok (accrued, t)) :
    PoolSafe (t, { b with accrued := (user, accrued) :: b.accrued }) := by
  obtain ⟨hnn, hpn⟩ := rewardsAccrue_pendingOf h
  obtain ⟨states, hs⟩ := rewardsAccrue_states h
  have hpl : t.store.rewardPoolBalance = s.store.rewardPoolBalance := by
    rw [hs]
    rfl
  refine ⟨hpl.trans hp.pool, hpl ▸ hp.solvent, fun owner => ?_, fun owner => ?_⟩
  · have hold : s.store.pendingOf owner = amountTo owner b.accrued - amountTo owner b.paid :=
      hp.pending owner
    show t.store.pendingOf owner =
      amountTo owner ((user, accrued) :: b.accrued) - amountTo owner b.paid
    rw [hpn owner, hold, amountTo_cons]
    ring
  · have hold : 0 ≤ s.store.pendingOf owner := hp.entitled owner
    show 0 ≤ t.store.pendingOf owner
    rw [hpn owner]
    split_ifs <;> omega

theorem pool_claim {user : Address} {payout : Int}
    (h : rewardsClaim (exact self) ctx user s = .ok (payout, t)) :
    PoolSafe (t, { b with
      accrued := (user, accruedBy ctx user s) :: b.accrued
      paid := (user, payout) :: b.paid }) := by
  have hs : 0 ≤ s.store.rewardPoolBalance := hp.solvent
  have hu : 0 ≤ s.store.pendingOf user := hp.entitled user
  obtain ⟨hnn, hpy, hpn, hpl, -⟩ := rewardsClaim_exact hs hu h
  refine ⟨?_, ?_, fun owner => ?_, fun owner => ?_⟩
  · have hold : s.store.rewardPoolBalance = b.funded.sum - (b.paid.map (·.2)).sum := hp.pool
    show t.store.rewardPoolBalance = b.funded.sum - (((user, payout) :: b.paid).map (·.2)).sum
    rw [hpl, hold, List.map_cons, List.sum_cons]
    ring
  · show 0 ≤ t.store.rewardPoolBalance
    omega
  · have hold : s.store.pendingOf owner = amountTo owner b.accrued - amountTo owner b.paid :=
      hp.pending owner
    show t.store.pendingOf owner = amountTo owner ((user, accruedBy ctx user s) :: b.accrued) -
      amountTo owner ((user, payout) :: b.paid)
    rw [hpn owner, hold, amountTo_cons, amountTo_cons]
    split_ifs <;> ring
  · have hold : 0 ≤ s.store.pendingOf owner := hp.entitled owner
    show 0 ≤ t.store.pendingOf owner
    rw [hpn owner]
    split_ifs with ho
    · subst ho
      omega
    · omega

theorem pool_call (h : op.exec (exact self) ctx s = .ok (u, t)) :
    PoolSafe (t, rewardNote self s (.call ctx op) b) := by
  cases op with
  | config op =>
    cases op with
    | rewardsAccrue user =>
      obtain ⟨accrued, h⟩ := of_void h
      simpa only [rewardNote, h] using pool_accrue hp h
    | _ => exact pool_other hp rfl h
  | rewardsFundPool caller amount =>
    have h : rewardsFundPool (exact self) ctx caller amount s = .ok (u, t) := h
    simpa only [rewardNote, h] using pool_fund hp h
  | rewardsClaim user =>
    obtain ⟨payout, h⟩ := of_void h
    simpa only [rewardNote, h] using pool_claim hp h
  | _ => exact pool_other hp rfl h

end

/-- A failed call is not recorded. -/
theorem rewardNote_failed {err : Fault Error} (h : op.exec (exact self) ctx s = .error err) :
    rewardNote self s (.call ctx op) b = b := by
  cases op with
  | config op =>
    cases op with
    | rewardsAccrue user =>
      have h := Call.void_error.mp h
      simp only [rewardNote, h]
    | _ => rfl
  | rewardsFundPool caller amount =>
    have h : rewardsFundPool (exact self) ctx caller amount s = .error err := h
    simp only [rewardNote, h]
  | rewardsClaim user =>
    have h := Call.void_error.mp h
    simp only [rewardNote, h]
  | _ => rfl

theorem pool_step (p : Sys World × RewardBook) (e : Move) (hp : PoolSafe p) :
    PoolSafe (watch (step self) (rewardNote self) p e) :=
  watch_induction (P := fun _ _ => True) (fun hp _ => pool_call hp) rewardNote_failed
    (fun hp => hp.same rfl fun _ => rfl) p e hp trivial

theorem claim_exact (p : Sys World × RewardBook) (e : Move) (hp : PoolSafe p) :
    ClaimExact self p e := by
  cases e with
  | wallet source target amount => trivial
  | call ctx op =>
    cases op with
    | rewardsClaim user =>
      intro payout t h
      obtain ⟨-, hpy, hpn, hpl, hpa⟩ :=
        rewardsClaim_exact hp.solvent (hp.entitled user) h
      refine ⟨hpy, ?_, hpl, hpa⟩
      rw [hpn user, if_pos rfl]
      ring
    | _ => trivial

/-- Along every run the pool and what is pending are what was funded, accrued and paid, and a
claim pays exactly what the pool allows. -/
theorem reward_pool_safe (self : Address) (tokens : Ledger Address) (es : List Move) :
    AllStates (watch (step self) (rewardNote self)) PoolSafe (.deployed tokens, ⟨[], [], []⟩) es ∧
      AllSteps (watch (step self) (rewardNote self)) (ClaimExact self)
        (.deployed tokens, ⟨[], [], []⟩) es := by
  have hs : PoolSafe (.deployed tokens, ⟨[], [], []⟩) :=
    ⟨rfl, le_refl 0, fun _ => rfl, fun _ => le_refl 0⟩
  exact ⟨invariant_allStates (fun p e hp _ => pool_step p e hp) hs (.trivial es),
    invariant_allSteps (fun p e hp _ => pool_step p e hp) (fun p e hp _ => claim_exact p e hp)
      hs (.trivial es)⟩

end Stow.Vault
