import Stow.Vault.Admin

/-! Goals that several people pay into and that pay them back in proportion. -/
namespace Stow.Vault

open Stow.Lib Stow.Lib.Contract Call SortedMap

variable {W : Type} (H : Host W) (ctx : Ctx)

def Store.setGoal (st : Store) (id : Nat) (goal : Goal) : Store :=
  { st with goals := st.goals.set id goal }

def Store.contributionsOf (st : Store) (goalId : Nat) : SortedMap Address Int :=
  (st.goalContributions.get goalId).getD .empty

def nextGoalId : Action W Nat := nextId (·.nextGoalId) (fun st id => { st with nextGoalId := id })

/-- The floor share of every contributor, and the total of these shares. -/
def payoutLoop (pool total : Int) :
    List (Address × Int) → SortedMap Address Int → Int → Option (SortedMap Address Int × Int)
  | [], payouts, distributed => some (payouts, distributed)
  | (contributor, amount) :: rest, payouts, distributed => do
    let product ← checkedMul pool amount
    let payout ← checkedDiv product total
    let distributed ← checkedAdd distributed payout
    payoutLoop pool total rest (payouts.set contributor payout) distributed

/-- The pool split in proportion to the contributions, with the dust for the owner. Every failure
of the arithmetic is reported as an overflow. -/
def computePayouts (contributions : SortedMap Address Int) (pool : Int) (owner : Address) :
    Option (SortedMap Address Int) := do
  let total ← contributions.entries.foldlM (fun sum e => checkedAdd sum e.2) 0
  if total ≤ 0 then some (empty.set owner pool)
  else do
    let (payouts, distributed) ← payoutLoop pool total contributions.entries .empty 0
    let remainder ← checkedSub pool distributed
    let ownerPayout ← checkedAdd ((payouts.get owner).getD 0) remainder
    some (payouts.set owner ownerPayout)

def goalCreate (owner : Address) (name : String) (targetAmount : Int) : Action W Nat := do
  extendInstanceTtl
  requireAuth H ctx owner
  require (0 < targetAmount) .invalidAmount
  let id ← nextGoalId
  save (·.setGoal id ⟨id, owner, name, targetAmount, 0, ctx.now, none, false⟩)
  publish (.goalCreated id owner name targetAmount ctx.now)
  pure id

def goalContribute (source : Address) (goalId : Nat) (amount : Int) : Action W Unit := do
  extendInstanceTtl
  requireAuth H ctx source
  require (0 < amount) .invalidAmount
  let goal ← orFail (← load (·.goals.get goalId)) .notFound
  transferIn H source amount
  let contributions ← load (·.contributionsOf goalId)
  let contributed ← orFail
    (checkedAdd ((contributions.get source).getD 0) amount) .overflow
  save (fun st => { st with
    goalContributions := st.goalContributions.set goalId (contributions.set source contributed)
    goalLastContributionLedger := st.goalLastContributionLedger.set goalId ctx.sequence })
  let newSaved ← orFail (checkedAdd goal.savedAmount amount) .overflow
  publish (.goalContribution goalId source amount newSaved ctx.now)
  if goal.reachedAt = none ∧ goal.targetAmount ≤ newSaved then do
    publish (.goalReached goalId goal.owner newSaved goal.targetAmount ctx.now)
    save (·.setGoal goalId { goal with savedAmount := newSaved, reachedAt := some ctx.now })
  else save (·.setGoal goalId { goal with savedAmount := newSaved })

/-- The contributions of a goal and the ledger of the last one are forgotten. -/
def Store.clearContributions (st : Store) (goalId : Nat) : Store :=
  { st with
    goalContributions := st.goalContributions.remove goalId
    goalLastContributionLedger := st.goalLastContributionLedger.remove goalId }

/-- A claimed goal starts again or is closed. -/
def goalFinish (goal : Goal) (owner : Address) (goalId : Nat) : Action W Unit := do
  save (·.clearContributions goalId)
  if goal.autoRenew then do
    save (·.setGoal goalId { goal with savedAmount := 0, reachedAt := none })
    publish (.goalRenewed goalId owner goal.targetAmount ctx.now)
  else save (fun st => { st with goals := st.goals.remove goalId })

def goalClaim (owner : Address) (goalId : Nat) : Action W Unit := do
  extendInstanceTtl
  requireAuth H ctx owner
  let goal ← orFail (← load (·.goals.get goalId)) .notFound
  require (goal.owner = owner) .unauthorized
  require (goal.reachedAt ≠ none) .goalNotReached
  let lastContributionLedger ← load (·.goalLastContributionLedger.get goalId)
  require (lastContributionLedger.all (· < ctx.sequence)) .sameLedger
  let contributions ← load (·.contributionsOf goalId)
  let payouts ← orFail (computePayouts contributions goal.savedAmount goal.owner) .overflow
  payEach H (fun contributor amount => .goalSplitPaid goalId contributor amount ctx.now)
    payouts.entries
  publish (.goalClaimed goalId owner goal.savedAmount ctx.now)
  goalFinish ctx goal owner goalId

def goalSetAutoRenew (owner : Address) (goalId : Nat) (autoRenew : Bool) : Action W Unit := do
  extendInstanceTtl
  requireAuth H ctx owner
  let goal ← orFail (← load (·.goals.get goalId)) .notFound
  require (goal.owner = owner) .unauthorized
  save (·.setGoal goalId { goal with autoRenew := autoRenew })
  publish (.goalAutoRenewSet goalId owner autoRenew ctx.now)

/-! ### The split -/

/-- The part of a pool for one amount of a total. -/
def proRata (pool total amount : Int) : Int := (pool * amount).tdiv total

section

variable {contributions payouts : SortedMap Address Int} {pool total distributed : Int}
  {owner : Address}

theorem foldlM_checkedAdd {es : List (Address × Int)} {start : Int}
    (h : es.foldlM (fun sum e => checkedAdd sum e.2) start = some total) :
    total = start + (es.map (fun e => id e.2)).sum := by
  induction es generalizing start with
  | nil =>
    obtain rfl : start = total := Option.some.inj h
    simp
  | cons e es ih =>
    simp only [List.foldlM_cons, checked_rules] at h
    obtain ⟨_, ⟨-, rfl⟩, h⟩ := h
    rw [ih h, List.map_cons, List.sum_cons, add_assoc]
    rfl

/-- Every part is written under its own key and added up. -/
theorem payoutLoop_some {es : List (Address × Int)} {payouts' : SortedMap Address Int}
    {distributed' : Int} (hes : es.Pairwise (fun a b => a.1 < b.1))
    (h : payoutLoop pool total es payouts distributed = some (payouts', distributed')) :
    (∀ a, payouts'.get a =
      ((find a es).map (proRata pool total)).or (payouts.get a)) ∧
      distributed' = distributed + (es.map (fun e => proRata pool total e.2)).sum := by
  induction es generalizing payouts distributed with
  | nil =>
    simp only [payoutLoop, Option.some.injEq, Prod.mk.injEq] at h
    obtain ⟨rfl, rfl⟩ := h
    exact ⟨fun _ => rfl, (add_zero _).symm⟩
  | cons e rest ih =>
    obtain ⟨contributor, amount⟩ := e
    obtain ⟨hlt, hr⟩ := List.pairwise_cons.mp hes
    simp only [payoutLoop, checked_rules] at h
    obtain ⟨_, ⟨-, rfl⟩, _, ⟨-, -, rfl⟩, _, ⟨-, rfl⟩, h⟩ := h
    obtain ⟨hg, hs⟩ := ih hr h
    refine ⟨?_, by rw [hs, List.map_cons, List.sum_cons, ← add_assoc]; rfl⟩
    intro a
    rw [hg, get_set]
    by_cases ha : a = contributor
    · subst ha
      have hn : find a rest = none := find_none_of_lt hlt
      simp [find, hn, proRata]
    · simp [find, ha]

theorem payoutLoop_entries
    (h : payoutLoop pool total contributions.entries .empty 0 = some (payouts, distributed)) :
    payouts = contributions.mapValues (proRata pool total) ∧
      distributed = contributions.sum (proRata pool total) := by
  obtain ⟨hg, hs⟩ := payoutLoop_some contributions.sorted h
  refine ⟨ext_get fun a => ?_, hs.trans (zero_add _)⟩
  rw [hg, get_empty, Option.or_none, get_mapValues]
  rfl

/-- The owner's payout replaces their part, or is added without one. -/
theorem computePayouts_some (h : computePayouts contributions pool owner = some payouts) :
    let part := proRata pool (contributions.sum id)
    (contributions.sum id ≤ 0 ∧ payouts = empty.set owner pool) ∨
      0 < contributions.sum id ∧ payouts = (contributions.mapValues part).set owner
        (((contributions.get owner).map part).getD 0 + (pool - contributions.sum part)) := by
  simp only [computePayouts, checked_rules] at h
  obtain ⟨total, ht, h⟩ := h
  obtain rfl : total = contributions.sum id := (foldlM_checkedAdd ht).trans (zero_add _)
  split_ifs at h with hle
  · exact .inl ⟨hle, (Option.some.inj h).symm⟩
  · simp only [Prod.exists, checked_rules] at h
    obtain ⟨_, _, hl, _, ⟨-, rfl⟩, _, ⟨-, rfl⟩, rfl⟩ := h
    obtain ⟨rfl, rfl⟩ := payoutLoop_entries hl
    exact .inr ⟨not_le.mp hle, by rw [get_mapValues]⟩

/-- The payouts add up to the pool, whatever was contributed. -/
theorem computePayouts_sum (h : computePayouts contributions pool owner = some payouts) :
    payouts.sum id = pool := by
  rcases computePayouts_some h with ⟨-, rfl⟩ | ⟨-, rfl⟩
  · simp [sum_set]
  · rw [sum_set, sum_mapValues, get_mapValues, Function.id_comp]
    cases contributions.get owner with
    | none => simp
    | some amount =>
      simp only [Option.map_some, Option.elim, Option.getD, id]
      ring

end

/-! ### What a successful call paid and wrote -/

variable {ctx} {self : Address} {s t : Sys World} {u : Unit} {goalId : Nat}

theorem goalCreate_ok {owner : Address} {name : String} {targetAmount : Int} {id : Nat}
    (h : goalCreate (exact self) ctx owner name targetAmount s = .ok (id, t)) :
    0 < targetAmount ∧ id = s.store.nextGoalId + 1 ∧
      t.store = { s.store with
        nextGoalId := id
        goals := s.store.goals.set id ⟨id, owner, name, targetAmount, 0, ctx.now, none, false⟩ } ∧
      t.world = s.world ∧ t.log = s.log ++ [.goalCreated id owner name targetAmount ctx.now] := by
  simp only [goalCreate, nextGoalId, bind_nextId, entry_rules] at h
  obtain ⟨-, -, hp, -, rfl, rfl⟩ := h
  exact ⟨hp, rfl, rfl, rfl, rfl⟩

theorem goalContribute_ok {source : Address} {amount : Int}
    (h : goalContribute (exact self) ctx source goalId amount s = .ok (u, t)) :
    source ≠ self ∧ 0 < amount ∧ ∃ goal contributions, s.store.goals.get goalId = some goal ∧
      contributions = s.store.contributionsOf goalId ∧
      s.store.token ≠ none ∧ s.world.pay source self amount = some t.world ∧
      t.log = s.log ++ .goalContribution goalId source amount (goal.savedAmount + amount) ctx.now ::
        (if goal.reachedAt = none ∧ goal.targetAmount ≤ goal.savedAmount + amount then
          [.goalReached goalId goal.owner (goal.savedAmount + amount) goal.targetAmount ctx.now]
        else []) ∧
      t.store = { s.store with
        goals := s.store.goals.set goalId { goal with
          savedAmount := goal.savedAmount + amount
          reachedAt := if goal.reachedAt = none ∧ goal.targetAmount ≤ goal.savedAmount + amount
            then some ctx.now else goal.reachedAt }
        goalContributions := s.store.goalContributions.set goalId
          (contributions.set source ((contributions.get source).getD 0 + amount))
        goalLastContributionLedger :=
          s.store.goalLastContributionLedger.set goalId ctx.sequence } := by
  simp only [goalContribute, transferIn, entry_rules] at h
  obtain ⟨-, ⟨-, hne⟩, hp, goal, hg, ⟨-, ht, -⟩, w, hw, _, ⟨-, rfl⟩, _, ⟨-, rfl⟩, h⟩ := h
  refine ⟨hne, hp, goal, _, hg, rfl, ht, ?_⟩
  rcases ite_ok.mp h with ⟨hr, h⟩ | ⟨hr, h⟩
  · simp only [bind_rules] at h
    obtain rfl := h
    rw [if_pos hr, if_pos hr]
    exact ⟨hw, List.append_assoc _ _ _, rfl⟩
  · obtain rfl := save_ok.mp h
    rw [if_neg hr, if_neg hr]
    exact ⟨hw, rfl, rfl⟩

/-- The goal a claim leaves behind. -/
def Store.finishedGoals (st : Store) (goal : Goal) (goalId : Nat) : SortedMap Nat Goal :=
  if goal.autoRenew then st.goals.set goalId { goal with savedAmount := 0, reachedAt := none }
  else st.goals.remove goalId

theorem goalFinish_ok {goal : Goal} {owner : Address}
    (h : goalFinish ctx goal owner goalId s = .ok (u, t)) :
    t.store = { s.store with
      goals := s.store.finishedGoals goal goalId
      goalContributions := s.store.goalContributions.remove goalId
      goalLastContributionLedger := s.store.goalLastContributionLedger.remove goalId } ∧
      t.world = s.world := by
  simp only [goalFinish, bind_save] at h
  unfold Store.finishedGoals
  rcases ite_ok.mp h with ⟨hr, h⟩ | ⟨hr, h⟩
  · rw [if_pos hr]
    simp only [bind_rules] at h
    obtain rfl := h
    exact ⟨rfl, rfl⟩
  · rw [if_neg hr]
    obtain rfl := save_ok.mp h
    exact ⟨rfl, rfl⟩

theorem goalClaim_ok {owner : Address}
    (h : goalClaim (exact self) ctx owner goalId s = .ok (u, t)) :
    ∃ goal payouts, s.store.goals.get goalId = some goal ∧ goal.owner = owner ∧
      goal.reachedAt ≠ none ∧
      computePayouts (s.store.contributionsOf goalId) goal.savedAmount owner = some payouts ∧
      s.world.payAll self payouts.entries = some t.world ∧
      t.store = { s.store with
        goals := s.store.finishedGoals goal goalId
        goalContributions := s.store.goalContributions.remove goalId
        goalLastContributionLedger := s.store.goalLastContributionLedger.remove goalId } := by
  simp only [goalClaim, entry_rules] at h
  obtain ⟨-, -, goal, hg, rfl, hr, -, payouts, hp, h⟩ := h
  obtain ⟨_, s₁, hpy, h⟩ := bind_ok.mp h
  obtain ⟨-, hw, hst⟩ := payEach_ok hpy
  rw [bind_publish] at h
  obtain ⟨hf, hs⟩ := goalFinish_ok h
  refine ⟨goal, payouts, hg, rfl, hr, hp, by rw [hw, hs], ?_⟩
  rw [hf, hst]

theorem goalSetAutoRenew_ok {owner : Address} {autoRenew : Bool}
    (h : goalSetAutoRenew (exact self) ctx owner goalId autoRenew s = .ok (u, t)) :
    ∃ goal, s.store.goals.get goalId = some goal ∧ goal.owner = owner ∧
      t.store = s.store.setGoal goalId { goal with autoRenew := autoRenew } ∧
      t.world = s.world := by
  simp only [goalSetAutoRenew, entry_rules] at h
  obtain ⟨-, -, goal, hg, ho, rfl⟩ := h
  exact ⟨goal, hg, ho, rfl, rfl⟩

end Stow.Vault
