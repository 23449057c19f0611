import Stow.Vault.Books

/-! Interest over sequences of claims. -/
namespace Stow.Vault

open Stow.Lib Stow.Lib.Contract Option

/-- One claim after the other, and all they credited. -/
def claimAll {W : Type} (H : Host W) (owner : Address) : List Ctx → Action W Int
  | [] => pure 0
  | ctx :: rest => do
    let credited ← interestClaim H ctx owner
    let later ← claimAll H owner rest
    pure (credited + later)

/-- The time of the last call. -/
def lastTime : Nat → List Ctx → Nat
  | now, [] => now
  | _, ctx :: rest => lastTime ctx.now rest

/-- Time never runs backwards. -/
def Chronological : Nat → List Ctx → Prop
  | _, [] => True
  | now, ctx :: rest => now ≤ ctx.now ∧ Chronological ctx.now rest

instance : ∀ now calls, Decidable (Chronological now calls)
  | _, [] => isTrue trivial
  | now, ctx :: rest =>
    have : Decidable (Chronological ctx.now rest) := instDecidableChronological ctx.now rest
    inferInstanceAs (Decidable (now ≤ ctx.now ∧ Chronological ctx.now rest))

/-- The whole periods between two times. -/
def CompoundFrequency.periodsBetween (frequency : CompoundFrequency) (start now : Nat) : Nat :=
  (now - start) / frequency.periodSeconds

/-- The numbers of whole periods since the start at two calls in a row. -/
def Spaced (R : Nat → Nat → Prop) (frequency : CompoundFrequency) (start : Nat) :
    Nat → List Ctx → Prop
  | _, [] => True
  | now, ctx :: rest =>
    R (frequency.periodsBetween start now) (frequency.periodsBetween start ctx.now) ∧
      Spaced R frequency start ctx.now rest

/-- An account that was opened at `start` and has been settled at `now`: its anchor is a whole
number of periods after the start, and its principal is one that these periods may lead to. -/
structure Accrued (I : Nat → Int → Prop) (start rateBps : Nat) (frequency : CompoundFrequency)
    (now : Nat) (account : InterestAccount) : Prop where
  sameRate : account.rateBps = rateBps
  sameFrequency : account.frequency = frequency
  anchor : account.lastCompoundAt =
    start + frequency.periodsBetween start now * frequency.periodSeconds
  holds : I (frequency.periodsBetween start now) account.principal

/-- Compounding leads from the principals after some periods to those after more of them. -/
def Compounds (I : Nat → Int → Prop) (R : Nat → Nat → Prop) (rateBps : Nat)
    (frequency : CompoundFrequency) : Prop :=
  ∀ n k p q, R n (n + k) → I n p → compound p rateBps frequency.periodsPerYear k = some q →
    I (n + k) q

/-- Whole periods since an anchor on the grid are those since the start, less those before it. -/
theorem periodsBetween_anchor (frequency : CompoundFrequency) (start now later : Nat) :
    frequency.periodsBetween
        (start + frequency.periodsBetween start now * frequency.periodSeconds) later =
      frequency.periodsBetween start later - frequency.periodsBetween start now := by
  unfold CompoundFrequency.periodsBetween
  rw [Nat.sub_add_eq, Nat.mul_comm, Nat.sub_mul_div]

theorem periodsBetween_mono (frequency : CompoundFrequency) (start : Nat) {now later : Nat}
    (h : now ≤ later) :
    frequency.periodsBetween start now ≤ frequency.periodsBetween start later :=
  Nat.div_le_div_right (Nat.sub_le_sub_right h start)

section

variable {I : Nat → Int → Prop} {R : Nat → Nat → Prop} {start now later rateBps : Nat}
  {credited : Int} {frequency : CompoundFrequency} {account settled : InterestAccount}

/-- Settling again moves the account along the same grid. -/
theorem Accrued.settle (h : Accrued I start rateBps frequency now account)
    (hcm : Compounds I R rateBps frequency) (hle : now ≤ later)
    (hR : R (frequency.periodsBetween start now) (frequency.periodsBetween start later))
    (hs : settle account later = some (settled, credited)) :
    Accrued I start rateBps frequency later settled := by
  obtain ⟨compounded, -, hc, rfl⟩ := settle_some hs
  obtain ⟨k, hk⟩ := Nat.exists_eq_add_of_le (periodsBetween_mono frequency start hle)
  have hpr : account.periodsAt later = k := by
    have := periodsBetween_anchor frequency start now later
    rw [← h.anchor, hk, Nat.add_sub_cancel_left] at this
    rw [← this, InterestAccount.periodsAt, h.sameFrequency]
    rfl
  rw [h.sameRate, h.sameFrequency, hpr] at hc
  refine ⟨h.sameRate, h.sameFrequency, ?_, ?_⟩
  · simp only [h.anchor, h.sameFrequency, hpr]
    rw [Nat.add_assoc, ← Nat.add_mul, hk]
  · rw [hk] at hR ⊢
    exact hcm _ k _ _ hR h.holds hc

/-- A new account, or one that is as good as new. -/
theorem Accrued.opened (account : InterestAccount) (h : I 0 account.principal) :
    Accrued I account.lastCompoundAt account.rateBps account.frequency account.lastCompoundAt
      account := by
  have hz : account.frequency.periodsBetween account.lastCompoundAt account.lastCompoundAt = 0 := by
    simp [CompoundFrequency.periodsBetween]
  refine ⟨rfl, rfl, ?_, by rwa [hz]⟩
  rw [hz, Nat.zero_mul, Nat.add_zero]

end

variable {W : Type} {H : Host W} {owner : Address} {s t : Sys W} {start now : Nat}
  {principal total : Int} {account : InterestAccount} {I : Nat → Int → Prop} {R : Nat → Nat → Prop}
  {calls : List Ctx}

/-- Any sequence of claims under one configuration keeps the account on its grid. -/
theorem claimAll_accrued {rateBps : Nat} {frequency : CompoundFrequency}
    (hrt : s.store.interestRateBps = rateBps) (hfr : s.store.interestFrequency = frequency)
    (hcm : Compounds I R rateBps frequency)
    (hg : s.store.interestAccounts.get owner = some account)
    (ha : Accrued I start rateBps frequency now account)
    (ht : Chronological now calls) (hR : Spaced R frequency start now calls)
    (h : claimAll H owner calls s = .ok (total, t)) :
    ∃ after, t.store.interestAccounts.get owner = some after ∧
      after.principal = account.principal + total ∧
      Accrued I start rateBps frequency (lastTime now calls) after := by
  induction calls generalizing s account now total with
  | nil =>
    obtain ⟨rfl, rfl⟩ := Call.pure_ok.mp h
    exact ⟨account, hg, (add_zero _).symm, ha⟩
  | cons ctx rest ih =>
    obtain ⟨credited, s₁, hc, h⟩ := Call.bind_ok.mp h
    obtain ⟨later, s₂, hrs, h⟩ := Call.bind_ok.mp h
    obtain ⟨rfl, rfl⟩ := Call.pure_ok.mp h
    obtain ⟨found, settled, hf, hst, -, hsr⟩ := interestClaim_ok hc
    obtain rfl : account = found := some.inj (hg.symm.trans hf)
    have hs := ha.settle hcm ht.1 hR.1 hst
    have hget₁ : s₁.store.interestAccounts.get owner =
        some (settled.adopt s.store settled.principal ctx.now) := by
      rw [hsr]
      exact SortedMap.get_set_self _ _ _
    -- the configuration that is adopted is the one the account had
    obtain ⟨after, haf, hpr, hr⟩ := ih (by rwa [hsr]) (by rwa [hsr]) hget₁
      ⟨hrt, hfr, hs.anchor, hs.holds⟩ ht.2 hR.2 hrs
    refine ⟨after, haf, ?_, hr⟩
    rw [hpr]
    simp only [InterestAccount.adopt, settle_principal hst]
    ring

/-- At most exact compounding over the periods. -/
def ExactBound (principal : Int) (rateBps : Nat) (frequency : CompoundFrequency) (n : Nat)
    (grown : Int) : Prop :=
  principal ≤ grown ∧ grown * rateDenominator frequency.periodsPerYear ^ n ≤
    principal * (rateDenominator frequency.periodsPerYear + rateBps) ^ n

theorem exactBound_compounds (hp : 0 ≤ principal) (rateBps : Nat) (frequency : CompoundFrequency) :
    Compounds (ExactBound principal rateBps frequency) (fun _ _ => True) rateBps frequency := by
  rintro n k p q - ⟨hgr, hb⟩ hc
  have hD := rateDenominator_pos frequency
  obtain ⟨hge, hle⟩ := compound_bounds hD (hp.trans hgr) hc
  refine ⟨hgr.trans hge, ?_⟩
  generalize rateDenominator frequency.periodsPerYear = D at hle hb hD ⊢
  have hg : (0 : Int) ≤ (D + rateBps) ^ k := by positivity
  calc q * D ^ (n + k)
      = q * D ^ k * D ^ n := by rw [pow_add]; ring
    _ ≤ p * (D + rateBps) ^ k * D ^ n := mul_le_mul_of_nonneg_right hle (by positivity)
    _ = p * D ^ n * (D + rateBps) ^ k := by ring
    _ ≤ principal * (D + rateBps) ^ n * (D + rateBps) ^ k := mul_le_mul_of_nonneg_right hb hg
    _ = principal * (D + rateBps) ^ (n + k) := by rw [pow_add]; ring

theorem spaced_of_all (h : ∀ n m, R n m) (frequency : CompoundFrequency) (start now : Nat)
    (calls : List Ctx) : Spaced R frequency start now calls := by
  induction calls generalizing now with
  | nil => trivial
  | cons ctx rest ih => exact ⟨h _ _, ih ctx.now⟩

/-- However the claims are spaced, the anchor stays a whole number of periods after the opening,
no whole period is lost, and the growth is at most exact compounding. -/
theorem claims_compound_exactly (H : Host W) (owner : Address) (calls : List Ctx) (s t : Sys W)
    (account : InterestAccount) (total : Int)
    (hget : s.store.interestAccounts.get owner = some account)
    (hopened : account.lastCompoundAt = account.createdAt)
    (hrate : account.rateBps = s.store.interestRateBps)
    (hfrequency : account.frequency = s.store.interestFrequency)
    (hp : 0 ≤ account.principal) (htimes : Chronological account.createdAt calls)
    (h : claimAll H owner calls s = .ok (total, t)) :
    let period := account.frequency.periodSeconds
    let periods := (lastTime account.createdAt calls - account.createdAt) / period
    let D : Int := 10000 * account.frequency.periodsPerYear
    ∃ after, t.store.interestAccounts.get owner = some after ∧
      after.lastCompoundAt = account.createdAt + periods * period ∧
      account.principal ≤ after.principal ∧
      after.principal * D ^ periods ≤ account.principal * (D + account.rateBps) ^ periods := by
  have hs := Accrued.opened (I := ExactBound account.principal account.rateBps account.frequency)
    account ⟨le_rfl, by simp⟩
  rw [hopened] at hs
  obtain ⟨after, haf, -, ha⟩ := claimAll_accrued hrate.symm hfrequency.symm
    (exactBound_compounds hp _ _) hget hs htimes (spaced_of_all (fun _ _ => trivial) ..) h
  exact ⟨after, haf, ha.anchor, ha.holds⟩

/-- The saver's account at ten percent, before any claim. -/
def openedAccount : Sys World :=
  runFrom (step 0) (.deployed purse)
    [.call ⟨0, 0, []⟩ (.setup 1 9),
     .call ⟨0, 0, [1]⟩ (.config (.setInterestRate 1 1000)),
     .call ⟨0, 0, [1]⟩ (.config (.setInterestFrequency 1 .daily)),
     .call ⟨7, 0, [2]⟩ (.interestDeposit 2 1000000)]

theorem claims_compound_exactly_two :
    ∃ after, ((claimAll (exact 0) 2 [⟨100000, 1, [2]⟩, ⟨700000, 2, [2]⟩]).after
        openedAccount).store.interestAccounts.get 2 = some after ∧
      after.lastCompoundAt = 7 + 8 * 86400 ∧ 1000000 ≤ after.principal ∧
      after.principal * 3650000 ^ 8 ≤ 1000000 * 3651000 ^ 8 := by
  obtain ⟨total, h⟩ := Call.ok_of_succeeds
    (x := claimAll (exact 0) 2 [⟨100000, 1, [2]⟩, ⟨700000, 2, [2]⟩]) (s := openedAccount)
    (by decide)
  obtain ⟨after, ha, han, hg, hb⟩ :=
    claims_compound_exactly (exact 0) 2 _ _ _ ⟨2, 1000000, 7, 1000, .daily, 7, 7⟩ total
      (by decide) rfl (by decide) (by decide) (by decide) (by decide) h
  refine ⟨after, ha, han, hg, ?_⟩
  simpa [lastTime, CompoundFrequency.periodSeconds, CompoundFrequency.periodsPerYear]
    using hb

/-! ### A new rate -/

/-- The time since the last whole period, which the next settlement keeps. -/
def InterestAccount.carried (account : InterestAccount) (now : Nat) : Nat :=
  (now - account.lastCompoundAt) % account.frequency.periodSeconds

/-- From the touch at `now` until `later`, the time carried over from before does not complete a
further period of the new frequency. -/
def InterestAccount.CarriesNoPeriod (account : InterestAccount) (frequency : CompoundFrequency)
    (now later : Nat) : Prop :=
  (later - now + account.carried now) / frequency.periodSeconds =
    (later - now) / frequency.periodSeconds

instance (account : InterestAccount) (frequency : CompoundFrequency) (now later : Nat) :
    Decidable (account.CarriesNoPeriod frequency now later) :=
  inferInstanceAs (Decidable (_ = _))

/-- The growth factor over some periods, as it is rounded. -/
def growthOver (rateBps periodsPerYear n : Nat) : Int :=
  if n = 0 ∨ rateBps = 0 then scale
  else ((periodFactor rateBps periodsPerYear).bind (powFactor · n)).getD scale

/-- The rounded growth up to the earlier claim and that from there to the later one come to no more
than the rounded growth up to the later one. -/
def Splits (rateBps periodsPerYear n m : Nat) : Prop :=
  growthOver rateBps periodsPerYear n * growthOver rateBps periodsPerYear (m - n) ≤
    scale * growthOver rateBps periodsPerYear m

instance (rateBps periodsPerYear n m : Nat) : Decidable (Splits rateBps periodsPerYear n m) :=
  inferInstanceAs (Decidable (_ ≤ _))

/-- From the touch at `now` on, no time carried over from before completes a period, and the growth
over the periods is not rounded up by splitting it over the claims. -/
def InterestAccount.NewPeriods (account : InterestAccount) (rateBps : Nat)
    (frequency : CompoundFrequency) (now : Nat) (calls : List Ctx) : Prop :=
  account.CarriesNoPeriod frequency now (lastTime now calls) ∧
    Spaced (Splits rateBps frequency.periodsPerYear) frequency (now - account.carried now)
      (now - account.carried now) calls

variable {ctx : Ctx} {op : Op}

/-- What any of the three calls that settle an account leaves of it. -/
theorem touch_ok {freshGoals freshGroups : Prop} {self : Address} {s t : Sys World} {u : Unit}
    (hs : s.store.Sound freshGoals freshGroups) (hop : op.settled = some owner)
    (hg : s.store.interestAccounts.get owner = some account)
    (h : op.exec (exact self) ctx s = .ok (u, t)) :
    ∃ settled credited principal, settle account ctx.now = some (settled, credited) ∧
      0 ≤ principal ∧
      t.store.interestAccounts.get owner = some (settled.adopt s.store principal ctx.now) ∧
      t.store.interestRateBps = s.store.interestRateBps ∧
      t.store.interestFrequency = s.store.interestFrequency := by
  cases op with
  | interestDeposit depositor amount =>
    obtain rfl : depositor = owner := some.inj hop
    obtain ⟨-, hp, settled, credited, states, hst, -, -, hsr⟩ := interestDeposit_ok h
    rw [interestOf_some ctx.now hg] at hst
    obtain ⟨-, hnn⟩ := settle_nonneg (hs.interest depositor account hg) hst
    refine ⟨settled, credited, _, hst, add_nonneg hnn hp.le, ?_, ?_, ?_⟩ <;> rw [hsr]
    · exact SortedMap.get_set_self _ _ _
    · rfl
    · rfl
  | interestWithdraw saver amount =>
    obtain rfl : saver = owner := some.inj hop
    obtain ⟨-, found, settled, credited, states, hf, hst, hle, -, -, hsr⟩ :=
      interestWithdraw_ok h
    obtain rfl : account = found := some.inj (hg.symm.trans hf)
    refine ⟨settled, credited, _, hst, sub_nonneg.mpr hle, ?_, ?_, ?_⟩ <;> rw [hsr]
    · exact SortedMap.get_set_self _ _ _
    · rfl
    · rfl
  | interestClaim saver =>
    obtain rfl : saver = owner := some.inj hop
    obtain ⟨credited, h⟩ := of_void h
    obtain ⟨found, settled, hf, hst, -, hsr⟩ := interestClaim_ok h
    obtain rfl : account = found := some.inj (hg.symm.trans hf)
    obtain ⟨-, hnn⟩ := settle_nonneg (hs.interest saver account hg) hst
    refine ⟨settled, credited, _, hst, hnn, ?_, ?_, ?_⟩ <;> rw [hsr]
    · exact SortedMap.get_set_self _ _ _
    · rfl
    · rfl
  | _ => cases hop

theorem credited_at_rate_zero {st : Store} (hop : op.settled = some owner)
    (hg : st.interestAccounts.get owner = some account) (hr : account.rateBps = 0) :
    op.credited ctx st = 0 := by
  simp only [Op.credited, hop, Option.elim, interestOf_some ctx.now hg]
  cases hs : settle account ctx.now with
  | none => simp [InterestAccount.due, hs]
  | some r =>
    obtain ⟨principal, hcr, hc, -⟩ := settle_some hs
    rw [compound, if_pos (.inr (.inr hr))] at hc
    rw [due_of_settle hs, hcr, ← Option.some.inj hc, sub_self]

theorem le_lastTime {now : Nat} (h : Chronological now calls) : now ≤ lastTime now calls := by
  induction calls generalizing now with
  | nil => exact le_refl _
  | cons ctx rest ih => exact h.1.trans (ih h.2)

/-- The settled anchor lies behind the touch by exactly the time carried. -/
theorem settled_anchor {settled : InterestAccount} {credited : Int} {now later : Nat}
    (hp : account.lastCompoundAt ≤ now) (hl : now ≤ later)
    (h : settle account now = some (settled, credited)) :
    settled.lastCompoundAt ≤ now ∧
      later - settled.lastCompoundAt = later - now + account.carried now := by
  obtain ⟨principal, -, -, rfl⟩ := settle_some h
  have hd := Nat.div_add_mod' (now - account.lastCompoundAt) account.frequency.periodSeconds
  simp only [InterestAccount.periodsAt, InterestAccount.carried]
  omega

theorem scale_le_growthOver (frequency : CompoundFrequency) (rateBps n : Nat) :
    scale ≤ growthOver rateBps frequency.periodsPerYear n := by
  unfold growthOver
  split_ifs
  · exact le_rfl
  · cases hf : periodFactor rateBps frequency.periodsPerYear with
    | none => exact le_rfl
    | some factor =>
      cases hg : powFactor factor n with
      | none => simp [hg]
      | some growth =>
        have hb := periodFactor_bounds (rateDenominator_pos frequency) hf
        simpa [hg] using (powFloor_bounds scale_pos hb.1 hg).1

theorem compound_growthOver {principal compounded : Int} {rateBps periodsPerYear n : Nat}
    (h : compound principal rateBps periodsPerYear n = some compounded) :
    compounded = (principal * growthOver rateBps periodsPerYear n).tdiv scale := by
  unfold compound at h
  unfold growthOver
  split_ifs at h with hz
  · obtain rfl := some.inj h
    rcases hz with rfl | hz
    · rw [zero_mul, Int.zero_tdiv]
    · rw [if_pos hz, Int.mul_tdiv_cancel _ scale_pos.ne']
  · simp only [checked_rules] at h
    obtain ⟨factor, hf, growth, hg, h⟩ := h
    obtain ⟨-, -, rfl⟩ := mulDivWide_some.mp h
    rw [if_neg fun hn => hz (.inr hn)]
    simp [hf, hg]

/-- At most the rounded growth over the periods. -/
def RoundedBound (principal : Int) (rateBps : Nat) (frequency : CompoundFrequency) (n : Nat)
    (grown : Int) : Prop :=
  0 ≤ grown ∧ grown * scale ≤ principal * growthOver rateBps frequency.periodsPerYear n

theorem roundedBound_compounds (hp : 0 ≤ principal) (rateBps : Nat)
    (frequency : CompoundFrequency) :
    Compounds (RoundedBound principal rateBps frequency) (Splits rateBps frequency.periodsPerYear)
      rateBps frequency := by
  rintro n k p q hR ⟨hnn, hb⟩ hc
  have hs := scale_pos
  have hk := scale_le_growthOver frequency rateBps k
  have hge := (compound_bounds (rateDenominator_pos frequency) hnn hc).1
  refine ⟨hnn.trans hge, ?_⟩
  unfold Splits at hR
  rw [Nat.add_sub_cancel_left] at hR
  have hq := compound_growthOver hc
  generalize growthOver rateBps frequency.periodsPerYear n = a at hb hR
  generalize growthOver rateBps frequency.periodsPerYear k = b at hk hR hq
  generalize growthOver rateBps frequency.periodsPerYear (n + k) = c at hR ⊢
  have hqs : q * scale ≤ p * b := hq ▸
    tdiv_nonneg_mul_le (mul_nonneg hnn (hs.le.trans hk)) hs
  refine le_of_mul_le_mul_right ?_ hs
  calc q * scale * scale ≤ p * b * scale := mul_le_mul_of_nonneg_right hqs hs.le
    _ = p * scale * b := by ring
    _ ≤ principal * a * b := mul_le_mul_of_nonneg_right hb (hs.le.trans hk)
    _ = principal * (a * b) := by ring
    _ ≤ principal * (scale * c) := mul_le_mul_of_nonneg_left hR hp
    _ = principal * c * scale := by ring

theorem RoundedBound.le_compound {frequency : CompoundFrequency} {rateBps n : Nat}
    {grown bound : Int} (h : RoundedBound principal rateBps frequency n grown)
    (hc : compound principal rateBps frequency.periodsPerYear n = some bound) : grown ≤ bound := by
  rw [compound_growthOver hc, ← Int.mul_tdiv_cancel grown scale_pos.ne']
  exact Int.tdiv_le_tdiv scale_pos h.2

/-- From any reachable state: an account at rate zero that adopts a new rate when it is touched
earns at most what the new rate compounds to from the touch on, unless time from before the touch
completes a period of the new frequency or the roundings of several claims come to more than that
of one. -/
theorem new_rate_prices_new_time (self : Address) (tokens : Ledger Address) (es : List Move)
    (s touched after : Sys World) (owner : Address) (account : InterestAccount) (ctx : Ctx)
    (op : Op) (u : Unit) (calls : List Ctx) (total bound : Int)
    (hreach : runFrom (step self) (.deployed tokens) es = s)
    (hget : s.store.interestAccounts.get owner = some account)
    (hrate : account.rateBps = 0) (hpast : account.lastCompoundAt ≤ ctx.now)
    (hop : op.settled = some owner) (htouch : op.exec (exact self) ctx s = .ok (u, touched))
    (htimes : Chronological ctx.now calls)
    (hclaims : claimAll (exact self) owner calls touched = .ok (total, after))
    (hnew : s.store.interestRateBps = 0 ∨
      account.NewPeriods s.store.interestRateBps s.store.interestFrequency ctx.now calls) :
    let frequency := s.store.interestFrequency
    let periods := (lastTime ctx.now calls - ctx.now) / frequency.periodSeconds
    op.credited ctx s.store = 0 ∧
      ∃ opened, touched.store.interestAccounts.get owner = some opened ∧
        (compound opened.principal s.store.interestRateBps frequency.periodsPerYear periods =
          some bound → opened.principal + total ≤ bound) := by
  have hs : s.store.Sound False False := hreach ▸
    invariant_reachable (I := fun s : Sys World => s.store.Sound False False) sound_step
      deployed_sound es
  obtain ⟨settled, credited, principal, hst, hp, ho, hr, hf⟩ := touch_ok hs hop hget htouch
  refine ⟨credited_at_rate_zero hop hget hrate, _, ho, fun hb => ?_⟩
  -- the account starts its new life at the anchor of the touch, which may lie before it
  obtain ⟨han, hsp⟩ := settled_anchor hpast (le_lastTime htimes) hst
  have hat : settled.lastCompoundAt = ctx.now - account.carried ctx.now := by
    have := (settled_anchor hpast le_rfl hst).2
    omega
  cases calls with
  | nil =>
    obtain ⟨rfl, -⟩ := Call.pure_ok.mp hclaims
    rw [lastTime, Nat.sub_self, Nat.zero_div, compound, if_pos (.inr (.inl rfl))] at hb
    rw [add_zero, some.inj hb]
  | cons call rest =>
    have hz : RoundedBound principal s.store.interestRateBps s.store.interestFrequency 0
        principal :=
      ⟨hp, by simp [growthOver]⟩
    have ht : Chronological settled.lastCompoundAt (call :: rest) := ⟨han.trans htimes.1, htimes.2⟩
    have hsd : Spaced (Splits s.store.interestRateBps s.store.interestFrequency.periodsPerYear)
        s.store.interestFrequency settled.lastCompoundAt settled.lastCompoundAt (call :: rest) := by
      rcases hnew with hz | hc
      · rw [hz]
        exact spaced_of_all (by simp [Splits, growthOver]) ..
      · rw [hat]
        exact hc.2
    obtain ⟨final, -, hfn, ha⟩ := claimAll_accrued hr hf (roundedBound_compounds hp _ _) ho
      (.opened (settled.adopt s.store principal ctx.now) hz) ht hsd hclaims
    have hh := ha.holds
    rw [hfn] at hh
    simp only [InterestAccount.adopt] at hh hb ⊢
    refine RoundedBound.le_compound ⟨hh.1, hh.2.trans_eq ?_⟩ hb
    rcases hnew with hz | hc
    · simp [growthOver, hz]
    · have hpr : s.store.interestFrequency.periodsBetween settled.lastCompoundAt
          (lastTime settled.lastCompoundAt (call :: rest)) =
            (lastTime ctx.now (call :: rest) - ctx.now) /
              s.store.interestFrequency.periodSeconds := by
        rw [CompoundFrequency.periodsBetween, ← hc.1, ← hsp]
        rfl
      rw [hpr]

/-- An account is opened at rate zero, and later the admin sets a rate of one hundred percent,
compounded daily. -/
def lateRate (frequency : CompoundFrequency) (time : Nat) : List Move :=
  [.call ⟨0, 0, []⟩ (.setup 1 9),
   .call ⟨0, 0, [1]⟩ (.config (.setInterestFrequency 1 frequency)),
   .call ⟨0, 0, [2]⟩ (.interestDeposit 2 1000000),
   .call ⟨time, 1, [1]⟩ (.config (.setInterestRate 1 10000)),
   .call ⟨time, 1, [1]⟩ (.config (.setInterestFrequency 1 .daily))]

/-- Touched after 364 days of its first year and claimed again at once, the account is credited
with 364 days at a rate that is not a second old. -/
theorem new_rate_prices_old_time :
    let s := runFrom (step 0) (.deployed purse) (lateRate .annually 31449600)
    let touched := (Op.exec (exact 0) ⟨31449600, 2, [2]⟩ (.interestClaim 2)).after s
    let after := (claimAll (exact 0) 2 [⟨31449600, 3, [2]⟩]).after touched
    s.store.interestAccounts.get 2 = some ⟨2, 1000000, 0, 0, .annually, 0, 0⟩ ∧
      (touched.store.interestAccounts.get 2).map (·.principal) = some 1000000 ∧
      (after.store.interestAccounts.get 2).map (·.principal) = some 2707150 := by decide +kernel

/-- Where the old period is a day too, only part of a day is carried, and the growth of a tenth of a
percent a day needs no rounding. -/
theorem new_rate_prices_new_time_daily :
    let s := runFrom (step 0) (.deployed purse)
      (lateRate .daily 100000 ++ [.call ⟨100000, 1, [1]⟩ (.config (.setInterestRate 1 3650))])
    let touched := (Op.exec (exact 0) ⟨100000, 2, [2]⟩ (.interestClaim 2)).after s
    let claims := claimAll (exact 0) 2 [⟨190000, 3, [2]⟩, ⟨280000, 4, [2]⟩]
    ∃ total opened, claims touched = .ok (total, claims.after touched) ∧
      touched.store.interestAccounts.get 2 = some opened ∧
      opened.principal = 1000000 ∧ opened.principal + total ≤ 1002001 := by
  intro s touched claims
  have ht : Op.exec (exact 0) ⟨100000, 2, [2]⟩ (.interestClaim 2) s = .ok ((), touched) :=
    Call.after_of_succeeds (by decide +kernel)
  obtain ⟨total, hc⟩ := Call.ok_of_succeeds (x := claims) (s := touched) (by decide +kernel)
  obtain ⟨-, opened, ho, hb⟩ := new_rate_prices_new_time 0 purse _ s touched _ 2
    ⟨2, 1000000, 0, 0, .daily, 0, 0⟩ ⟨100000, 2, [2]⟩ (.interestClaim 2) () _ total 1002001 rfl
    (by decide) rfl (by decide) rfl ht (by decide) hc
    (.inr ⟨by decide, by decide +kernel, by decide +kernel, trivial⟩)
  have hp : opened.principal = 1000000 := by
    have : (touched.store.interestAccounts.get 2).map (·.principal) = some 1000000 := by
      decide +kernel
    rw [ho] at this
    exact some.inj this
  exact ⟨total, opened, hc, ho, hp, hb (by rw [hp]; decide +kernel)⟩

/-! ### Waiting -/

theorem compound_mono {principal less more : Int} {rateBps periodsPerYear n m : Nat}
    (hps : 0 < rateDenominator periodsPerYear) (hp : 0 ≤ principal) (hnm : n ≤ m)
    (hl : compound principal rateBps periodsPerYear n = some less)
    (hm : compound principal rateBps periodsPerYear m = some more) : less ≤ more := by
  by_cases hs : principal = 0 ∨ n = 0 ∨ rateBps = 0
  · rw [compound, if_pos hs] at hl
    obtain rfl := some.inj hl
    exact (compound_bounds hps hp hm).1
  · have hs' : ¬ (principal = 0 ∨ m = 0 ∨ rateBps = 0) := by omega
    simp only [compound, if_neg hs, if_neg hs', checked_rules] at hl hm
    obtain ⟨factor, hf, growth, hg, hl⟩ := hl
    obtain ⟨factor', hf', growth', hg', hm⟩ := hm
    obtain rfl := some.inj (hf.symm.trans hf')
    have hle := powFloor_mono scale_pos (periodFactor_bounds hps hf).1 hnm hg hg'
    obtain ⟨-, -, rfl⟩ := mulDivWide_some.mp hl
    obtain ⟨-, -, rfl⟩ := mulDivWide_some.mp hm
    exact Int.tdiv_le_tdiv scale_pos (mul_le_mul_of_nonneg_left hle hp)

theorem accruedAt_some {account : InterestAccount} {now : Nat} {a : Int}
    (h : account.accruedAt now = some a) :
    compound account.principal account.rateBps account.frequency.periodsPerYear
      (account.periodsAt now) = some (account.principal + a) := by
  simp only [InterestAccount.accruedAt] at h
  split_ifs at h with hz
  · obtain rfl := some.inj h
    simp [compound, hz]
  · simp only [checked_rules] at h
    obtain ⟨compounded, hc, -, rfl⟩ := h
    rw [hc, add_sub_cancel]

theorem accrued_ok {W : Type} {ctx : Ctx} {owner : Address} {s t : Sys W} {a : Int}
    (h : accrued ctx owner s = .ok (a, t)) :
    ∃ account, s.store.interestAccounts.get owner = some account ∧
      account.accruedAt ctx.now = some a ∧ t = s := by
  simp only [accrued, Call.orFail_ok, bind_rules] at h
  obtain ⟨account, hg, ha, rfl⟩ := h
  exact ⟨account, hg, ha, rfl⟩

/-- The preview is never negative and never smaller at a later time, and the growth factor is
never smaller for one period more. -/
theorem waiting_never_costs {W : Type} (owner : Address) (account : InterestAccount)
    (hp : 0 ≤ account.principal) :
    (∀ (ctx₁ ctx₂ : Ctx) (s₁ s₂ t₁ t₂ : Sys W) (a₁ a₂ : Int),
      s₁.store.interestAccounts.get owner = some account →
      s₂.store.interestAccounts.get owner = some account → ctx₁.now ≤ ctx₂.now →
      accrued ctx₁ owner s₁ = .ok (a₁, t₁) → accrued ctx₂ owner s₂ = .ok (a₂, t₂) →
      0 ≤ a₁ ∧ a₁ ≤ a₂) ∧
    ∀ (base less more : Int) (n : Nat),
      periodFactor account.rateBps account.frequency.periodsPerYear = some base →
      powFactor base n = some less → powFactor base (n + 1) = some more → less ≤ more := by
  have hps := rateDenominator_pos account.frequency
  refine ⟨?_, ?_⟩
  · intro ctx₁ ctx₂ s₁ s₂ t₁ t₂ a₁ a₂ hget₁ hget₂ hn h₁ h₂
    obtain ⟨_, hgt, haccrued₁, -⟩ := accrued_ok h₁
    obtain rfl := some.inj (hget₁.symm.trans hgt)
    obtain ⟨_, hgt, haccrued₂, -⟩ := accrued_ok h₂
    obtain rfl := some.inj (hget₂.symm.trans hgt)
    have hcompound₁ := accruedAt_some haccrued₁
    have hpr : account.periodsAt ctx₁.now ≤ account.periodsAt ctx₂.now :=
      Nat.div_le_div_right (Nat.sub_le_sub_right hn _)
    have hg := (compound_bounds hps hp hcompound₁).1
    have hle := compound_mono hps hp hpr hcompound₁ (accruedAt_some haccrued₂)
    exact ⟨by omega, by omega⟩
  · intro base less more n hb hl hm
    exact powFloor_mono scale_pos (periodFactor_bounds hps hb).1 (Nat.le_succ n) hl hm

/-- Three and four days at one hundred percent, where the exponent gains a binary digit. -/
theorem waiting_a_fourth_day :
    let s := runFrom (step 0) (.deployed purse)
      [.call ⟨0, 0, []⟩ (.setup 1 9),
       .call ⟨0, 0, [1]⟩ (.config (.setInterestRate 1 10000)),
       .call ⟨0, 0, [1]⟩ (.config (.setInterestFrequency 1 .daily)),
       .call ⟨0, 0, [2]⟩ (.interestDeposit 2 1000000)]
    accrued ⟨259200, 1, []⟩ 2 s = .ok (8241, s) ∧ accrued ⟨345600, 1, []⟩ 2 s = .ok (11004, s) ∧
      (0 : Int) ≤ 8241 ∧ (8241 : Int) ≤ 11004 := by
  intro s
  have ht : accrued ⟨259200, 1, []⟩ 2 s = .ok (8241, s) := rfl
  have hf : accrued ⟨345600, 1, []⟩ 2 s = .ok (11004, s) := rfl
  refine ⟨ht, hf, ?_⟩
  exact (waiting_never_costs 2 ⟨2, 1000000, 0, 10000, .daily, 0, 0⟩ (by decide)).1 _ _ s s s s _ _
    (by decide +kernel) (by decide +kernel) (by decide) ht hf

end Stow.Vault
