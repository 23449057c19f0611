import Stow.Vault.Emergency
import Stow.Vault.GoalLedger

/-! What the contributors of a goal get, and when a reached goal can be claimed. -/
namespace Stow.Vault

open Stow.Lib Stow.Lib.Contract List

variable {contributions payouts : SortedMap Address Int} {pool total : Int} {owner : Address}

/-! ### The parts of a pool -/

/-- The floor of each contributor's part. -/
def floorPart (contributions : SortedMap Address Int) (pool amount : Int) : Int :=
  pool * amount / contributions.sum id

/-- The payouts make up the pool. Everybody but the owner gets their floor, and the owner theirs
with what rounding leaves, which is less than one unit for each contributor. -/
structure ExactSplit (contributions : SortedMap Address Int) (pool : Int) (owner : Address)
    (payouts : SortedMap Address Int) : Prop where
  nonneg : payouts.Forall (fun _ amount => 0 ≤ amount)
  total : payouts.sum id = pool
  others : ∀ a, a ≠ owner → payouts.get a = (contributions.get a).map (floorPart contributions pool)
  owners : ∃ r : Int, 0 ≤ r ∧ r < contributions.entries.length ∧
    payouts.get owner =
      some (((contributions.get owner).map (floorPart contributions pool)).getD 0 + r)

theorem leftover_bounds (ht : 0 < contributions.sum id) (pool : Int) :
    0 ≤ pool - contributions.sum (floorPart contributions pool) ∧
      pool - contributions.sum (floorPart contributions pool) < contributions.entries.length := by
  obtain ⟨hle, hlt⟩ := floor_split_bounds ht
    (show (contributions.entries.map (·.2)).sum = contributions.sum id from rfl) pool
  rw [map_map, length_map] at hlt
  rw [map_map] at hle
  exact ⟨sub_nonneg.mpr hle, sub_lt_iff_lt_add'.mpr hlt⟩

section

variable (hamounts : contributions.Forall (fun _ amount => 0 ≤ amount)) (hpool : 0 ≤ pool)
include hamounts hpool

theorem proRata_eq_floorPart {a : Address} {amount : Int} (ha : contributions.get a = some amount) :
    proRata pool (contributions.sum id) amount = floorPart contributions pool amount :=
  Int.tdiv_eq_ediv_of_nonneg (mul_nonneg hpool (hamounts a amount ha))

theorem sum_proRata : contributions.sum (proRata pool (contributions.sum id)) =
    contributions.sum (floorPart contributions pool) :=
  congrArg sum (map_congr_left fun _ he =>
    proRata_eq_floorPart hamounts hpool (SortedMap.get_eq_some_iff.mpr he))

theorem payouts_nonneg (h : computePayouts contributions pool owner = some payouts) :
    payouts.Forall (fun _ amount => 0 ≤ amount) := by
  rcases computePayouts_some h with ⟨-, rfl⟩ | ⟨ht, rfl⟩
  · exact SortedMap.Forall.empty.set hpool
  have hpr : ∀ a, 0 ≤ ((contributions.get a).map (proRata pool (contributions.sum id))).getD 0 := by
    intro a
    cases ha : contributions.get a with
    | none => exact le_refl 0
    | some amount => exact Int.tdiv_nonneg (mul_nonneg hpool (hamounts a amount ha)) ht.le
  refine SortedMap.Forall.set (fun a amount ha => ?_) (add_nonneg (hpr owner) ?_)
  · rw [SortedMap.get_mapValues] at ha
    have hnn := hpr a
    rwa [ha] at hnn
  · rw [sum_proRata hamounts hpool]
    exact (leftover_bounds ht pool).1

end

theorem goal_split_exact (contributions payouts : SortedMap Address Int) (pool : Int)
    (owner : Address) (hamounts : contributions.Forall (fun _ amount => 0 ≤ amount))
    (htotal : 0 < contributions.sum id) (hpool : 0 ≤ pool)
    (h : computePayouts contributions pool owner = some payouts) :
    ExactSplit contributions pool owner payouts := by
  have hpt (a : Address) : (contributions.get a).map (proRata pool (contributions.sum id)) =
      (contributions.get a).map (floorPart contributions pool) :=
    Option.map_congr fun amount ha => proRata_eq_floorPart hamounts hpool ha
  obtain ⟨hl, hlt⟩ := leftover_bounds htotal pool
  refine ⟨payouts_nonneg hamounts hpool h, computePayouts_sum h, fun a ha => ?_, _, hl, hlt, ?_⟩
  all_goals
    obtain ⟨hn, -⟩ | ⟨-, rfl⟩ := computePayouts_some h
    · exact absurd htotal (not_lt.mpr hn)
  · rw [SortedMap.get_set, if_neg ha, SortedMap.get_mapValues, hpt]
  · rw [SortedMap.get_set_self, hpt, sum_proRata hamounts hpool]

/-- A third contributor's unit goes to an owner who has put in nothing. -/
theorem goal_split_exact_thirds :
    let contributions : SortedMap Address Int := ((SortedMap.empty.set 2 1).set 3 1).set 4 1
    ∃ payouts, computePayouts contributions 100 7 = some payouts ∧
      payouts.sum id = 100 ∧ payouts.get 2 = some 33 := by
  intro contributions
  have hamounts : contributions.Forall (fun _ amount => 0 ≤ amount) :=
    ((SortedMap.Forall.empty.set (by decide)).set (by decide)).set (by decide)
  have hs := goal_split_exact contributions
    ((((SortedMap.empty.set 2 33).set 3 33).set 4 33).set 7 1) 100 7 hamounts (by decide)
    (by decide) rfl
  exact ⟨_, rfl, hs.total, hs.others 2 (by decide)⟩

/-! ### Overflow -/

/-- The contributions add up, and no product of the pool and a contribution is too large. -/
def Splittable (contributions : SortedMap Address Int) (pool : Int) : Prop :=
  FitsI128 (contributions.sum id) ∧
    contributions.Forall (fun _ amount => pool * amount ≤ i128Max)

theorem foldlM_fits {es : List (Address × Int)} {start : Int} (hs : FitsI128 start)
    (h : es.foldlM (fun sum e => checkedAdd sum e.2) start = some total) : FitsI128 total := by
  induction es generalizing start with
  | nil => exact Option.some.inj h ▸ hs
  | cons e es ih =>
    simp only [foldlM_cons, checked_rules] at h
    obtain ⟨_, ⟨hf, rfl⟩, h⟩ := h
    exact ih hf h

theorem foldlM_isSome {es : List (Address × Int)} {start : Int} (hs : 0 ≤ start)
    (hes : ∀ e ∈ es, 0 < e.2) (hf : FitsI128 (start + (es.map (·.2)).sum)) :
    ∃ total, es.foldlM (fun sum e => checkedAdd sum e.2) start = some total := by
  induction es generalizing start with
  | nil => exact ⟨start, rfl⟩
  | cons e es ih =>
    obtain ⟨he, hes⟩ := forall_mem_cons.mp hes
    have hr : 0 ≤ (es.map (·.2)).sum := by
      apply sum_nonneg
      intro x hx
      obtain ⟨e, he, rfl⟩ := mem_map.mp hx
      exact (hes e he).le
    rw [map_cons, sum_cons, ← add_assoc] at hf
    have hn : checkedAdd start e.2 = some (start + e.2) :=
      checkedAdd_some.mpr ⟨hf.of_le (by omega) (by omega), rfl⟩
    obtain ⟨total, ht⟩ := ih (by omega) hes hf
    exact ⟨total, by rw [foldlM_cons, hn]; exact ht⟩

theorem payoutLoop_fits {es : List (Address × Int)} {payouts : SortedMap Address Int}
    {distributed : Int} {out : SortedMap Address Int × Int}
    (h : payoutLoop pool total es payouts distributed = some out) :
    ∀ e ∈ es, pool * e.2 ≤ i128Max := by
  induction es generalizing payouts distributed with
  | nil => simp
  | cons e es ih =>
    simp only [payoutLoop, checked_rules] at h
    obtain ⟨_, ⟨hf, rfl⟩, _, -, _, -, h⟩ := h
    exact forall_mem_cons.mpr ⟨hf.2, ih h⟩

/-- What has been distributed never exceeds the pool. -/
theorem payoutLoop_isSome {es : List (Address × Int)} (payouts : SortedMap Address Int)
    {distributed : Int} (hpl : 0 ≤ pool) (ht : 0 < total) (hd : 0 ≤ distributed)
    (hes : ∀ e ∈ es, 0 < e.2 ∧ pool * e.2 ≤ i128Max)
    (hl : distributed * total + pool * (es.map (·.2)).sum ≤ pool * total) :
    ∃ out, payoutLoop pool total es payouts distributed = some out ∧ out.2 ≤ pool := by
  induction es generalizing payouts distributed with
  | nil =>
    rw [map_nil, sum_nil, mul_zero, add_zero] at hl
    exact ⟨_, rfl, le_of_mul_le_mul_right hl ht⟩
  | cons e es ih =>
    obtain ⟨⟨he, hm⟩, hes⟩ := forall_mem_cons.mp hes
    have hp : 0 ≤ pool * e.2 := mul_nonneg hpl he.le
    have hft : FitsI128 (pool * e.2) := ⟨le_trans (by decide) hp, hm⟩
    have hpr := tdiv_nonneg hp ht.le
    have hf := tdiv_nonneg_mul_le hp ht
    have hr : 0 ≤ pool * (es.map (·.2)).sum := by
      refine mul_nonneg hpl (sum_nonneg fun x hx => ?_)
      obtain ⟨e, he, rfl⟩ := mem_map.mp hx
      exact (hes e he).1.le
    rw [map_cons, sum_cons, mul_add] at hl
    generalize hs : (pool * e.2).tdiv total = share at hpr hf
    have hn : (distributed + share) * total + pool * (es.map (·.2)).sum ≤ pool * total := by
      rw [add_mul]
      omega
    have hle : distributed + share ≤ pool := le_of_mul_le_mul_right (by omega) ht
    have hp_ : pool ≤ pool * e.2 := le_mul_of_one_le_right hpl he
    obtain ⟨out, ho, hb⟩ := ih (payouts.set e.1 share) (by omega) hes hn
    refine ⟨out, ?_, hb⟩
    simp only [payoutLoop, checked_rules]
    exact ⟨_, ⟨hft, rfl⟩, share, ⟨ht.ne', hs ▸ hft.of_le hpr
      (hs ▸ (Int.tdiv_le_self _ hp)), hs⟩, _,
      ⟨hft.of_le (by omega) (by omega), rfl⟩, ho⟩

section

variable (hamounts : contributions.Forall (fun _ amount => 0 < amount))

include hamounts

theorem splittable_of_payouts (h : computePayouts contributions pool owner = some payouts) :
    Splittable contributions pool := by
  simp only [computePayouts, checked_rules] at h
  obtain ⟨total, ht, h⟩ := h
  obtain rfl : total = contributions.sum id := (foldlM_checkedAdd ht).trans (zero_add _)
  refine ⟨foldlM_fits (by decide) ht, fun a amount ha => ?_⟩
  have hp := (hamounts a amount ha).trans_le
    (SortedMap.le_sum (f := id) (fun a amount ha => (hamounts a amount ha).le) ha)
  rw [if_neg (not_le.mpr hp)] at h
  obtain ⟨out, hl, -⟩ := Option.bind_eq_some_iff.mp h
  exact payoutLoop_fits hl _ (SortedMap.get_eq_some_iff.mp ha)

theorem payouts_of_splittable (hp : 0 ≤ pool) (h : Splittable contributions pool)
    (owner : Address) : ∃ payouts, computePayouts contributions pool owner = some payouts := by
  have hm : ∀ e ∈ contributions.entries, 0 < e.2 ∧ pool * e.2 ≤ i128Max := by
    intro e he
    have hg := SortedMap.get_eq_some_iff.mpr he
    exact ⟨hamounts e.1 e.2 hg, h.2 e.1 e.2 hg⟩
  obtain ⟨total, hf⟩ := foldlM_isSome le_rfl (fun e he => (hm e he).1)
    (by rw [zero_add]; exact h.1)
  have ht : total = contributions.sum id := (foldlM_checkedAdd hf).trans (zero_add _)
  simp only [computePayouts, Option.bind_eq_bind, hf, Option.bind_some]
  by_cases hz : total ≤ 0
  · exact ⟨_, if_pos hz⟩
  · obtain ⟨⟨shares, distributed⟩, hl, hle⟩ := payoutLoop_isSome .empty hp (not_le.mp hz)
      le_rfl hm (by rw [zero_mul, zero_add, ht]; exact le_rfl)
    obtain ⟨hs, hd⟩ := payoutLoop_entries hl
    have hpr : ∀ a part, shares.get a = some part → 0 ≤ id part := by
      intro a part ha
      rw [hs, SortedMap.get_mapValues, Option.map_eq_some_iff] at ha
      obtain ⟨amount, ha, rfl⟩ := ha
      exact tdiv_nonneg (mul_nonneg hp (hamounts a amount ha).le) (not_le.mp hz).le
    have hsm : shares.sum id = distributed := by
      rw [hs, SortedMap.sum_mapValues, Function.id_comp, hd]
    have hn := SortedMap.sum_nonneg hpr
    have ho : 0 ≤ (shares.get owner).getD 0 ∧ (shares.get owner).getD 0 ≤ shares.sum id := by
      cases hg : shares.get owner with
      | none => exact ⟨le_rfl, hn⟩
      | some part => exact ⟨hpr owner part hg, SortedMap.le_sum hpr hg⟩
    -- one contribution is enough for the pool itself to fit
    obtain ⟨e, he⟩ := exists_mem_of_ne_nil contributions.entries fun hnl =>
      hz (by rw [ht, SortedMap.sum, hnl]; exact le_rfl)
    have hon := le_mul_of_one_le_right hp (hm e he).1
    have hft : FitsI128 pool := ⟨le_trans (by decide) hp, hon.trans (hm e he).2⟩
    refine ⟨shares.set owner ((shares.get owner).getD 0 + (pool - distributed)), ?_⟩
    rw [if_neg hz]
    simp only [Option.bind_eq_some_iff, checkedSub_some, checkedAdd_some, Prod.exists]
    exact ⟨_, _, hl, _, ⟨hft.of_le (by omega) (by omega), rfl⟩, _,
      ⟨hft.of_le (by omega) (by omega), rfl⟩, rfl⟩

end

/-! ### Claiming -/

variable {self : Address} {ctx : Ctx} {s t : Sys World} {u : Unit} {op : Op} {goalId : Nat}

/-- Payments go through as long as the vault holds their sum. -/
theorem payEach_isSome (event : Address → Int → Event) {payments : List (Address × Int)}
    (htk : s.store.token ≠ none) (hi : s.store.tokenTransferActive = false)
    (hn : ∀ p ∈ payments, 0 ≤ p.2) (hh : (payments.map (·.2)).sum ≤ s.world.held self) :
    ∃ t, payEach (exact self) event payments s = .ok ((), t) := by
  induction payments generalizing s with
  | nil => exact ⟨s, rfl⟩
  | cons p rest ih =>
    obtain ⟨target, amount⟩ := p
    obtain ⟨ha, hr⟩ := forall_mem_cons.mp hn
    rw [map_cons, sum_cons] at hh
    simp only [payEach]
    by_cases hz : amount = 0
    · rw [if_pos hz]
      exact ih htk hi hr (by omega)
    · have hs : 0 ≤ (rest.map (·.2)).sum := by
        apply sum_nonneg
        intro x hx
        obtain ⟨p, hp, rfl⟩ := mem_map.mp hx
        exact hr p hp
      have hps : 0 < amount := lt_of_le_of_ne ha (Ne.symm hz)
      obtain ⟨w, hw⟩ := pay_isSome target hps (by omega : amount ≤ s.world.held self)
      have hl : s.world.held self - amount ≤ w.held self := by
        unfold World.held
        by_cases htr : self = target
        · subst htr
          rw [Ledger.transfer_self (World.pay_transfer hw)]
          omega
        · exact (World.pay_source hw htr).ge
      obtain ⟨t, ht⟩ := ih (s := ⟨s.store, s.log ++ [event target amount], w⟩) htk hi hr
        (by show _ ≤ w.held self; omega)
      rw [if_neg hz]
      simp only [transferOut, entry_rules]
      exact ⟨t, ⟨hps, htk, hi⟩, w, hw, ht⟩

/-- Contributions are positive, and only an initialized vault has a goal that was reached. -/
structure Store.GoalsFunded (st : Store) : Prop where
  positive : st.goalContributions.Forall (fun _ m => m.Forall (fun _ amount => 0 < amount))
  reached : st.goals.Forall (fun _ goal => goal.reachedAt ≠ none → st.admin ≠ none)

theorem Store.GoalsFunded.contributionsOf {st : Store} (h : st.GoalsFunded) (goalId : Nat) :
    (st.contributionsOf goalId).Forall (fun _ amount => 0 < amount) := by
  unfold Store.contributionsOf
  cases hg : st.goalContributions.get goalId with
  | none => exact .empty
  | some m => exact h.positive goalId m hg

theorem exec_goalsFunded (hsn : s.store.Sound False False) (hs : s.store.GoalsFunded)
    (h : op.exec (exact self) ctx s = .ok (u, t)) : t.store.GoalsFunded := by
  by_cases hop : op.writesGoals = true
  · cases op with
    | setup admin token =>
      obtain ⟨-, hst, -⟩ := initializeVault_ok h
      rw [hst]
      exact ⟨hs.positive, fun _ _ _ _ => Option.some_ne_none admin⟩
    | goalCreate owner name targetAmount =>
      obtain ⟨_, h⟩ := of_void h
      obtain ⟨-, -, hst, -⟩ := goalCreate_ok h
      rw [hst]
      exact ⟨hs.positive, hs.reached.set fun hne => absurd rfl hne⟩
    | goalContribute source goalId amount =>
      obtain ⟨-, hp, goal, _, hgt, rfl, ht, -, -, hst⟩ := goalContribute_ok h
      rw [hst]
      refine ⟨hs.positive.set ((hs.contributionsOf goalId).set ?_),
        hs.reached.set fun _ => hsn.admin_ne ht⟩
      cases hsr : (s.store.contributionsOf goalId).get source with
      | none => simpa using hp
      | some before => exact add_pos (hs.contributionsOf goalId source before hsr) hp
    | goalClaim owner goalId =>
      obtain ⟨goal, _, -, -, -, -, -, hst⟩ := goalClaim_ok h
      rw [hst]
      refine ⟨hs.positive.remove, ?_⟩
      simp only [Store.finishedGoals]
      split_ifs
      · exact hs.reached.set fun hne => absurd rfl hne
      · exact hs.reached.remove
    | goalSetAutoRenew owner goalId autoRenew =>
      obtain ⟨goal, hgt, -, hst, -⟩ := goalSetAutoRenew_ok h
      rw [hst]
      exact ⟨hs.positive, hs.reached.set (hs.reached goalId goal hgt)⟩
    | _ => simp [Op.writesGoals] at hop
  · have hf := exec_frame h
    have hsm := hf.goals (Bool.eq_false_of_not_eq_true hop)
    simp only [Store.goalRecords, Prod.mk.injEq] at hsm
    obtain ⟨hg, hc, -⟩ := hsm
    refine ⟨hc ▸ hs.positive, hg ▸ hs.reached.mono fun _ _ hr hne hn => ?_⟩
    exact hr hne (hf.admin hn)

/-- The state in which every condition of a claim but the split is met. -/
structure GoalsReady (s : Sys World) : Prop where
  sound : s.store.Sound False False
  exits : s.store.ExitsReady
  funded : s.store.GoalsFunded

theorem goalsReady_step (s : Sys World) (e : Move) (hs : GoalsReady s) :
    GoalsReady (step self s e) := by
  refine step_induction (I := GoalsReady) (P := fun _ _ => True) ?_ ?_ s e hs trivial
  · intro ctx op s t u hs _ h
    exact ⟨exec_sound hs.sound False.elim False.elim h, exec_exitsReady hs.exits h,
      exec_goalsFunded hs.sound hs.funded h⟩
  · intro source target amount s hs
    exact { hs with }

theorem goalFinish_isSome (ctx : Ctx) (goal : Goal) (goalId : Nat) (s : Sys World) :
    ∃ t, goalFinish ctx goal goal.owner goalId s = .ok ((), t) := by
  simp only [goalFinish, bind_save]
  cases goal.autoRenew with
  | true => exact ⟨_, rfl⟩
  | false => exact ⟨_, rfl⟩

theorem goalClaim_iff {goal : Goal} (hs : GoalsReady s)
    (hg : s.store.goals.get goalId = some goal) (hr : goal.reachedAt ≠ none)
    (hh : goal.savedAmount ≤ s.world.held self)
    (hsg : goal.owner ∈ ctx.auths ∧ goal.owner ≠ self)
    (hl : (s.store.goalLastContributionLedger.get goalId).all (· < ctx.sequence) = true) :
    (∃ t, goalClaim (exact self) ctx goal.owner goalId s = .ok ((), t)) ↔
      Splittable (s.store.contributionsOf goalId) goal.savedAmount := by
  have hpl : 0 ≤ goal.savedAmount := hs.sound.goals goalId goal hg
  have hamounts := hs.funded.contributionsOf goalId
  constructor
  · rintro ⟨t, h⟩
    obtain ⟨_, payouts, hg', -, -, hpy, -⟩ := goalClaim_ok h
    obtain rfl := Option.some.inj (hg.symm.trans hg')
    exact splittable_of_payouts hamounts hpy
  · intro hsp
    obtain ⟨payouts, hpy⟩ := payouts_of_splittable hamounts hpl hsp goal.owner
    have hn := payouts_nonneg (hamounts.mono fun _ _ => le_of_lt) hpl hpy
    obtain ⟨t, hpa⟩ := payEach_isSome
      (fun contributor amount => .goalSplitPaid goalId contributor amount ctx.now)
      (hs.exits.opened (hs.funded.reached goalId goal hg hr)) hs.exits.idle
      (fun p hp => hn p.1 p.2 (SortedMap.get_eq_some_iff.mpr hp))
      ((computePayouts_sum hpy).le.trans hh)
    obtain ⟨t', hf⟩ := goalFinish_isSome ctx goal goalId
      ⟨t.store, t.log ++ [.goalClaimed goalId goal.owner goal.savedAmount ctx.now], t.world⟩
    simp only [goalClaim, entry_rules]
    exact ⟨t', hs.exits.idle, hsg, goal, hg, rfl, hr, hl, payouts, hpy,
      Call.bind_ok.mpr ⟨(), t, hpa, bind_publish.mpr hf⟩⟩

/-- In every reachable state a reached goal whose savings the vault holds can be claimed in a later
ledger exactly when its contributions add up and none of them times the savings overflows. -/
theorem reached_goal_claimable_iff (self : Address) (tokens : Ledger Address) (es : List Move)
    (ctx : Ctx) (goalId : Nat) (goal : Goal) :
    let s := runFrom (step self) (.deployed tokens) es
    s.store.goals.get goalId = some goal → goal.reachedAt ≠ none →
    goal.savedAmount ≤ s.world.held self → goal.owner ∈ ctx.auths → goal.owner ≠ self →
    (s.store.goalLastContributionLedger.get goalId).all (· < ctx.sequence) = true →
    ((∃ t, goalClaim (exact self) ctx goal.owner goalId s = .ok ((), t)) ↔
      Splittable (s.store.contributionsOf goalId) goal.savedAmount) := by
  intro s hg hr hh hsg hsl hl
  have hst : GoalsReady (.deployed tokens) :=
    ⟨deployed_sound, ⟨rfl, fun h => absurd rfl h, fun h => absurd h Bool.false_ne_true, .empty⟩,
      .empty, .empty⟩
  have hs : GoalsReady s := invariant_reachable goalsReady_step hst es
  exact goalClaim_iff hs hg hr hh ⟨hsg, hsl⟩ hl

/-- Saver 2 reaches a goal alone. -/
def soloGoal (amount : Int) : List Move :=
  [.call ⟨0, 0, []⟩ (.setup 1 9), .call ⟨0, 0, [2]⟩ (.goalCreate 2 "boat" amount),
   .call ⟨0, 0, [2]⟩ (.goalContribute 2 1 amount)]

theorem reached_goal_claimable_thousand :
    ∃ t, goalClaim (exact 0) ⟨5, 1, [2]⟩ 2 1
      (runFrom (step 0) (.deployed purse) (soloGoal 1000)) = .ok ((), t) := by
  refine (reached_goal_claimable_iff 0 purse (soloGoal 1000) ⟨5, 1, [2]⟩ 1
    ⟨1, 2, "boat", 1000, 1000, 0, some 0, false⟩ rfl (by decide) (by decide +kernel) (by decide)
    (by decide) (by decide +kernel)).mpr ⟨by decide +kernel, ?_⟩
  intro a amount ha
  rcases mem_singleton.mp (SortedMap.get_eq_some_iff.mp ha) with ⟨rfl, rfl⟩
  decide

/-- `2 ^ 64` units are eighteen tokens of eighteen decimals, and their square does not fit. -/
theorem large_goal_stuck :
    let s := runFrom (step 0) (.deployed fun a => if a = 2 then 18446744073709551616 else 0)
      (soloGoal 18446744073709551616)
    (s.store.goals.get 1).map (·.reachedAt) = some (some 0) ∧
      s.world.held 0 = 18446744073709551616 ∧
      (goalClaim (exact 0) ⟨5, 1, [2]⟩ 2 1).succeeds s = false := by
  decide +kernel

end Stow.Vault
