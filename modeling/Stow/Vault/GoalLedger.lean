import Stow.Vault.Frame

/-! Goals along every run: contributions add up to what is saved, and a claim pays them back. -/
namespace Stow.Vault

open Stow.Lib Stow.Lib.Contract SortedMap

/-- What an address gets from a list of transfers. -/
def received (transfers : List Transfer) (a : Address) : Int :=
  ((transfers.filter (fun tr => tr.target = a)).map (·.amount)).sum

/-- What an address has put in, out of a list of contributions. -/
def putIn (contributions : List (Address × Int)) (a : Address) : Int :=
  ((contributions.filter (fun c => c.1 = a)).map (·.2)).sum

/-- The contributions to every goal since it was created or last renewed. -/
abbrev GoalBook := Nat → List (Address × Int)

def GoalBook.put (b : GoalBook) (id : Nat) (contributions : List (Address × Int)) : GoalBook :=
  fun j => if j = id then contributions else b j

def goalNote (self : Address) (s : Sys World) (e : Move) (b : GoalBook) : GoalBook :=
  match e with
  | .call ctx (.goalCreate owner name targetAmount) =>
    match goalCreate (exact self) ctx owner name targetAmount s with
    | .ok (id, _) => b.put id []
    | .error _ => b
  | .call ctx (.goalContribute source goalId amount) =>
    if (goalContribute (exact self) ctx source goalId amount).succeeds s then
      b.put goalId (b goalId ++ [(source, amount)])
    else b
  | .call ctx (.goalClaim owner goalId) =>
    if (goalClaim (exact self) ctx owner goalId).succeeds s then b.put goalId [] else b
  | _ => b

/-- The record of a goal agrees with its contributions. -/
structure GoalBalanced (goal : Goal) (contributions : SortedMap Address Int) : Prop where
  saved : goal.savedAmount = contributions.sum id
  positive : contributions.Forall (fun _ amount => 0 < amount)
  reached : goal.reachedAt ≠ none ↔ goal.targetAmount ≤ goal.savedAmount

/-- The claim pays everybody what they put in and forgets the contributions. -/
structure PaysBack (vault : Address) (s t : Sys World) (id : Nat)
    (contributions : List (Address × Int)) : Prop where
  paid : ∃ transfers, t.world.journal = s.world.journal ++ transfers ∧
    (∀ tr ∈ transfers, tr.source = vault) ∧ ∀ a, received transfers a = putIn contributions a
  forgotten : t.store.goalContributions.get id = none ∧
    t.store.goalLastContributionLedger.get id = none

/-! ### The split of a pool that the contributions make up -/

/-- Everybody's payout is their contribution; the owner's is zero without one. -/
theorem computePayouts_exact {contributions payouts : SortedMap Address Int} {pool : Int}
    {owner : Address} (hpl : 0 < pool) (hs : pool = contributions.sum id)
    (h : computePayouts contributions pool owner = some payouts) (a : Address) :
    (payouts.get a).getD 0 = (contributions.get a).getD 0 := by
  subst hs
  have hpr : proRata (contributions.sum id) (contributions.sum id) = id :=
    funext fun amount => Int.mul_tdiv_cancel_left amount hpl.ne'
  rcases computePayouts_some h with ⟨hle, -⟩ | ⟨-, rfl⟩
  · exact absurd hpl (not_lt.mpr hle)
  · rw [hpr, sub_self, add_zero, get_set, get_mapValues]
    split_ifs with ha
    · simp [ha]
    · simp

theorem received_transfersOf (source : Address) (payments : List (Address × Int)) (a : Address) :
    received (transfersOf source payments) a = putIn payments a := by
  induction payments with
  | nil => rfl
  | cons p rest ih =>
    obtain ⟨target, amount⟩ := p
    by_cases hz : amount = 0 <;> by_cases ha : target = a <;>
      simp_all [received, putIn, transfersOf]

/-! ### One goal -/

/-- The record of a goal, the contributions the vault keeps and those it was given agree. -/
structure GoalKept (goal : Goal) (contributions : SortedMap Address Int)
    (given : List (Address × Int)) : Prop extends GoalBalanced goal contributions where
  target : 0 < goal.targetAmount
  given : ∀ a, putIn given a = (contributions.get a).getD 0

theorem goalKept_new (goal : Goal) (ht : 0 < goal.targetAmount) (hs : goal.savedAmount = 0)
    (hr : goal.reachedAt = none) : GoalKept goal .empty [] where
  saved := hs
  positive := .empty
  reached := by
    rw [hr, hs]
    exact iff_of_false (fun h => h rfl) (not_le.mpr ht)
  target := ht
  given _ := rfl

theorem putIn_concat (given : List (Address × Int)) (source : Address) (amount : Int)
    (a : Address) :
    putIn (given ++ [(source, amount)]) a = putIn given a + if source = a then amount else 0 := by
  by_cases ha : source = a <;> simp [putIn, ha]

theorem GoalKept.contribute {goal : Goal} {contributions : SortedMap Address Int}
    {given : List (Address × Int)} {source : Address} {amount : Int} (now : Nat)
    (h : GoalKept goal contributions given) (hps : 0 < amount) :
    GoalKept { goal with
        savedAmount := goal.savedAmount + amount
        reachedAt := if goal.reachedAt = none ∧ goal.targetAmount ≤ goal.savedAmount + amount
          then some now else goal.reachedAt }
      (contributions.set source ((contributions.get source).getD 0 + amount))
      (given ++ [(source, amount)]) where
  saved := by
    have hs := h.saved
    simp only [sum_set, hs]
    cases contributions.get source with
    | none => simp
    | some before =>
      simp only [Option.elim, Option.getD, id]
      ring
  positive := by
    refine h.positive.set ?_
    cases hg : contributions.get source with
    | none => simpa using hps
    | some before => exact add_pos (h.positive source before hg) hps
  reached := by
    have hr := h.reached
    by_cases hn : goal.reachedAt = none
    · by_cases ht : goal.targetAmount ≤ goal.savedAmount + amount <;> simp [hn, ht]
    · have ht := hr.mp hn
      simp only [hn, false_and, if_false]
      exact iff_of_true hn (by omega)
  target := h.target
  given a := by
    rw [putIn_concat, h.given a, get_set]
    by_cases ha : source = a
    · simp [ha]
    · simp [ha, Ne.symm ha]

/-! ### One call -/

/-- Every goal is kept, and only stored goals have contributions. -/
structure GoalsKept (p : Sys World × GoalBook) : Prop where
  sound : p.1.store.Sound True False
  initialized : p.1.store.admin ≠ none
  kept : p.1.store.goals.Forall
    (fun id goal => GoalKept goal (p.1.store.contributionsOf id) (p.2 id))
  orphans : p.1.store.goalContributions.Forall
    (fun id _ => ∃ goal, p.1.store.goals.get id = some goal)

variable {ctx : Ctx} {self : Address} {s t : Sys World} {u : Unit} {op : Op} {b : GoalBook}
  {id : Nat}

theorem contributionsOf_set {m : SortedMap Nat (SortedMap Address Int)}
    {contributions : SortedMap Address Int}
    (h : t.store.goalContributions = m.set id contributions) :
    t.store.contributionsOf id = contributions ∧
      ∀ j, j ≠ id → t.store.contributionsOf j = (m.get j).getD .empty := by
  unfold Store.contributionsOf
  rw [h]
  exact ⟨by rw [get_set_self]; rfl, fun j hj => by rw [get_set_of_ne hj]⟩

theorem contributionsOf_remove {m : SortedMap Nat (SortedMap Address Int)}
    (h : t.store.goalContributions = m.remove id) :
    t.store.contributionsOf id = .empty ∧
      ∀ j, j ≠ id → t.store.contributionsOf j = (m.get j).getD .empty := by
  unfold Store.contributionsOf
  rw [h]
  refine ⟨by rw [get_remove, if_pos rfl]; rfl, ?_⟩
  intro j hj
  rw [get_remove, if_neg hj]

/-- A call that writes one goal, its contributions and its page of the book. -/
theorem GoalsKept.write {goal : Goal} {given : List (Address × Int)} (hp : GoalsKept (s, b))
    (hgl : t.store.goals = s.store.goals.set id goal)
    (ho : ∀ j, j ≠ id → t.store.contributionsOf j = s.store.contributionsOf j)
    (hg : GoalKept goal (t.store.contributionsOf id) given) :
    t.store.goals.Forall
      (fun j g => GoalKept g (t.store.contributionsOf j) (b.put id given j)) := by
  intro j g hgt
  rw [hgl, get_set] at hgt
  unfold GoalBook.put
  split_ifs at hgt ⊢ with hj
  · obtain rfl := Option.some.inj hgt
    exact hj ▸ hg
  · rw [ho j hj]
    exact hp.kept j g hgt

section

variable (hp : GoalsKept (s, b)) (hsn : t.store.Sound True False) (hadmin : t.store.admin ≠ none)

include hp hsn hadmin

theorem goals_contribute {source : Address} {amount : Int}
    (h : goalContribute (exact self) ctx source id amount s = .ok (u, t)) :
    GoalsKept (t, b.put id (b id ++ [(source, amount)])) := by
  obtain ⟨-, hps, goal, contributions, hg, rfl, -, -, -, hs⟩ := goalContribute_ok h
  obtain ⟨hn, ho⟩ := contributionsOf_set (t := t) (by rw [hs])
  refine ⟨hsn, hadmin, ?_, ?_⟩
  · refine hp.write (by rw [hs]) ho ?_
    rw [hn]
    exact (hp.kept id goal hg).contribute ctx.now hps
  · intro j contributions hj
    rw [hs] at hj ⊢
    rcases get_set_cases hj with ⟨hid, -⟩ | ⟨-, hj⟩
    · exact exists_get_set _ (.inl hid)
    · exact exists_get_set _ (.inr (hp.orphans j contributions hj))

theorem goals_create {owner : Address} {name : String} {targetAmount : Int}
    (h : goalCreate (exact self) ctx owner name targetAmount s = .ok (id, t)) :
    GoalsKept (t, b.put id []) := by
  obtain ⟨ht, rfl, hst, -⟩ := goalCreate_ok h
  have hc : t.store.goalContributions = s.store.goalContributions := by rw [hst]
  have hs : ∀ j, t.store.contributionsOf j = s.store.contributionsOf j := by
    intro j
    rw [Store.contributionsOf, hc]
    rfl
  have hs' : s.store.Sound True False := hp.sound
  have hf : s.store.goals.get (s.store.nextGoalId + 1) = none :=
    get_succ_eq_none (hs'.goalIds trivial)
  have he : s.store.contributionsOf (s.store.nextGoalId + 1) = .empty := by
    unfold Store.contributionsOf
    cases hgt : s.store.goalContributions.get (s.store.nextGoalId + 1) with
    | none => rfl
    | some contributions =>
      obtain ⟨goal, hg⟩ := hp.orphans _ contributions hgt
      simp [hf] at hg
  refine ⟨hsn, hadmin, ?_, ?_⟩
  · refine hp.write (by rw [hst]) (fun j _ => hs j) ?_
    rw [hs, he]
    exact goalKept_new _ ht rfl rfl
  · intro j contributions hj
    rw [hc] at hj
    rw [hst]
    exact exists_get_set _ (.inr (hp.orphans j contributions hj))

theorem goals_claim {owner : Address} (h : goalClaim (exact self) ctx owner id s = .ok (u, t)) :
    GoalsKept (t, b.put id []) := by
  obtain ⟨goal, _, hgt, -, -, -, -, hst⟩ := goalClaim_ok h
  have hc : t.store.goalContributions = s.store.goalContributions.remove id := by
    rw [hst]
  have hgl : t.store.goals = s.store.finishedGoals goal id := by rw [hst]
  obtain ⟨he, hot⟩ := contributionsOf_remove hc
  have ho : ∀ j contributions, t.store.goalContributions.get j = some contributions →
      j ≠ id ∧ ∃ g, s.store.goals.get j = some g := by
    intro j contributions hj
    rw [hc, get_remove] at hj
    split_ifs at hj with hid
    exact ⟨hid, hp.orphans j contributions hj⟩
  unfold Store.finishedGoals at hgl
  split_ifs at hgl with hr
  · refine ⟨hsn, hadmin, ?_, ?_⟩
    · refine hp.write hgl hot ?_
      rw [he]
      exact goalKept_new _ (hp.kept id goal hgt).target rfl rfl
    · intro j contributions hj
      simp only [hgl]
      exact exists_get_set _ (.inr (ho j contributions hj).2)
  · refine ⟨hsn, hadmin, ?_, ?_⟩
    · intro j g hg
      simp only [hgl, get_remove] at hg
      split_ifs at hg with hj
      simp only [GoalBook.put, if_neg hj, hot j hj]
      exact hp.kept j g hg
    · intro j contributions hj
      obtain ⟨hne, hs⟩ := ho j contributions hj
      simp only [hgl, get_remove]
      rw [if_neg hne]
      exact hs

theorem goals_setAutoRenew {owner : Address} {autoRenew : Bool}
    (h : goalSetAutoRenew (exact self) ctx owner id autoRenew s = .ok (u, t)) :
    GoalsKept (t, b) := by
  obtain ⟨goal, hgt, -, hst, -⟩ := goalSetAutoRenew_ok h
  have hs : ∀ j, t.store.contributionsOf j = s.store.contributionsOf j := by
    intro j
    rw [hst]
    rfl
  have hk := hp.kept id goal hgt
  refine ⟨hsn, hadmin, ?_, ?_⟩
  · intro j g hg
    simp only [hs]
    rw [hst] at hg
    rcases get_set_cases hg with ⟨rfl, rfl⟩ | ⟨-, hg⟩
    · exact { hk with }
    · exact hp.kept j g hg
  · intro j contributions hj
    rw [hst] at hj ⊢
    exact exists_get_set _ (.inr (hp.orphans j contributions hj))

end

theorem goals_call (hp : GoalsKept (s, b)) (h : op.exec (exact self) ctx s = .ok (u, t)) :
    GoalsKept (t, goalNote self s (.call ctx op) b) := by
  have hi : s.store.admin ≠ none := hp.initialized
  have hf := exec_frame h
  have hadmin : t.store.admin ≠ none := fun hn => hi (hf.admin hn)
  have hsn : t.store.Sound True False :=
    exec_sound hp.sound (fun _ _ hn => absurd hn hi) False.elim h
  cases op with
  | setup admin token => exact absurd (initializeVault_ok h).1 hi
  | goalCreate owner name targetAmount =>
    obtain ⟨id, h⟩ := of_void h
    simp only [goalNote, h]
    exact goals_create hp hsn hadmin h
  | goalContribute source goalId amount =>
    have hok : (goalContribute (exact self) ctx source goalId amount).succeeds s = true :=
      Call.succeeds_of_ok h
    simp only [goalNote, hok, if_true]
    exact goals_contribute hp hsn hadmin h
  | goalClaim owner goalId =>
    have hok : (goalClaim (exact self) ctx owner goalId).succeeds s = true := Call.succeeds_of_ok h
    simp only [goalNote, hok, if_true]
    exact goals_claim hp hsn hadmin h
  | goalSetAutoRenew owner goalId autoRenew => exact goals_setAutoRenew hp hsn hadmin h
  | _ =>
    have hs := hf.goals rfl
    simp only [Store.goalRecords, Prod.mk.injEq] at hs
    obtain ⟨hg, hc, -⟩ := hs
    refine ⟨hsn, hadmin, ?_, ?_⟩
    · simp only [Store.contributionsOf, hg, hc]
      exact hp.kept
    · simp only [hg, hc]
      exact hp.orphans

theorem goalNote_failed {err : Fault Error} (h : op.exec (exact self) ctx s = .error err) :
    goalNote self s (.call ctx op) b = b := by
  cases op with
  | goalCreate owner name targetAmount =>
    cases hc : goalCreate (exact self) ctx owner name targetAmount s with
    | error _ => simp only [goalNote, hc]
    | ok r =>
      have hok : Op.exec (exact self) ctx (.goalCreate owner name targetAmount) s = .ok ((), r.2) :=
        Call.void_ok.mpr ⟨r.1, hc⟩
      simp [hok] at h
  | goalContribute source goalId amount =>
    have hf : (goalContribute (exact self) ctx source goalId amount).succeeds s = false :=
      Call.fails_of_error h
    simp [goalNote, hf]
  | goalClaim owner goalId =>
    have hf : (goalClaim (exact self) ctx owner goalId).succeeds s = false :=
      Call.fails_of_error h
    simp [goalNote, hf]
  | _ => rfl

theorem goals_step (p : Sys World × GoalBook) (e : Move) (hp : GoalsKept p) :
    GoalsKept (watch (step self) (goalNote self) p e) :=
  watch_induction (P := fun _ _ => True) (fun hp _ => goals_call hp) goalNote_failed
    (fun hp => { hp with }) p e hp trivial

/-! ### Claims -/

theorem GoalsKept.paysBack {owner : Address} (hp : GoalsKept (s, b))
    (h : goalClaim (exact self) ctx owner id s = .ok (u, t)) : PaysBack self s t id (b id) := by
  obtain ⟨goal, payouts, hg, -, hr, hpy, hpa, hs⟩ := goalClaim_ok h
  have hk : GoalKept goal (s.store.contributionsOf id) (b id) := hp.kept id goal hg
  have hpl : 0 < goal.savedAmount := hk.target.trans_le (hk.reached.mp hr)
  refine ⟨⟨_, World.payAll_journal hpa, ?_, ?_⟩, ?_, ?_⟩
  · intro tr htr
    obtain ⟨_, -, rfl⟩ := List.mem_map.mp htr
    rfl
  · intro a
    calc received (transfersOf self payouts.entries) a
        = putIn payouts.entries a := received_transfersOf self payouts.entries a
      _ = (payouts.get a).getD 0 := sum_filter_key payouts.sorted a
      _ = ((s.store.contributionsOf id).get a).getD 0 :=
        computePayouts_exact hpl hk.saved hpy a
      _ = putIn (b id) a := (hk.given a).symm
  · rw [hs]
    simp [get_remove]
  · rw [hs]
    simp [get_remove]

/-- From an initialized vault on: in every state what a goal has saved is what its contributors
have put in, it is reached exactly when that covers the target, and claiming it pays everybody back
what they put in since it was created or last renewed. -/
theorem goal_ledger (self : Address) (tokens : Ledger Address) (ctx : Ctx) (admin token : Address)
    (es : List Move) :
    let start := step self (.deployed tokens) (.call ctx (.setup admin token))
    AllStates (watch (step self) (goalNote self))
      (fun p =>
        (∀ id goal, p.1.store.goals.get id = some goal →
          GoalBalanced goal (p.1.store.contributionsOf id)) ∧
        ∀ ctx owner id t, goalClaim (exact self) ctx owner id p.1 = .ok ((), t) →
          PaysBack self p.1 t id (p.2 id))
      (start, fun _ => []) es := by
  intro start
  have hs : GoalsKept (start, fun _ => []) :=
    ⟨deployed_sound.seeded rfl (fun _ => rfl) False.elim admin token, nofun, .empty, .empty⟩
  refine (invariant_allStates (fun p e hp _ => goals_step p e hp) hs
    (AllSteps.trivial es)).mono ?_
  rintro ⟨s, b⟩ hp
  exact ⟨fun id goal hg => (hp.kept id goal hg).toGoalBalanced,
    fun _ _ _ _ h => hp.paysBack h⟩

end Stow.Vault
