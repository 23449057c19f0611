import Mathlib.Algebra.BigOperators.Ring.Finset
import Stow.Vault.Step

/-! Inheritance: heirs may claim a flexible account whose owner has been inactive. -/
namespace Stow.Vault

open Stow.Lib Stow.Lib.Contract List Call SortedMap

structure Beneficiary where
  address : Address
  shareBps : Nat
  deriving Repr, DecidableEq

structure InheritancePlan where
  owner : Address
  beneficiaries : List Beneficiary
  inactivityTimeout : Nat
  lastActiveAt : Nat
  deriving Repr, DecidableEq

/-- What the module adds to the storage of the vault. -/
structure InheritanceStore where
  plans : SortedMap Address InheritancePlan

abbrev InheritanceSys (W : Type) := State (Store × InheritanceStore) Event W

abbrev InheritanceAction (W α : Type) := Call Error (InheritanceSys W) α

section

variable {W : Type} (H : Host W) (ctx : Ctx)

def loadPlan (owner : Address) : InheritanceAction W InheritancePlan := do
  orFail (← load (·.2.plans.get owner)) .notFound

def savePlan (plan : InheritancePlan) : InheritanceAction W Unit :=
  save (fun st => (st.1, ⟨st.2.plans.set plan.owner plan⟩))

def totalShares (beneficiaries : List Beneficiary) : Option Nat :=
  beneficiaries.foldlM (fun total b => checkedAddU32 total b.shareBps) 0

/-- An empty list passes. -/
def validateSharesSum (beneficiaries : List Beneficiary) : InheritanceAction W Unit := do
  let total ← orFail (totalShares beneficiaries) .overflow
  require (¬(beneficiaries ≠ [] ∧ total ≠ 10000)) .invalidShares

/-- The clock of a new plan starts when the plan is made. -/
def InheritancePlan.fresh (owner : Address) (now : Nat) : InheritancePlan := ⟨owner, [], 0, now⟩

/-- The share replaced where the beneficiary is listed, or appended. -/
def designated (beneficiaries : List Beneficiary) (beneficiary : Address) (shareBps : Nat) :
    List Beneficiary :=
  let updated := beneficiaries.map
    (fun b => if b.address = beneficiary then { b with shareBps := shareBps } else b)
  if beneficiaries.any (·.address = beneficiary) then updated
  else updated ++ [⟨beneficiary, shareBps⟩]

def designateBeneficiary (owner beneficiary : Address) (shareBps : Nat) :
    InheritanceAction W Unit := do
  enter H ctx owner
  require (0 < shareBps ∧ shareBps ≤ 10000) .invalidAmount
  let plan ← load (fun st => (st.2.plans.get owner).getD (.fresh owner ctx.now))
  savePlan { plan with
    beneficiaries := designated plan.beneficiaries beneficiary shareBps }
  publish (.beneficiarySet owner beneficiary shareBps)

def removeBeneficiary (owner beneficiary : Address) : InheritanceAction W Unit := do
  enter H ctx owner
  let plan ← loadPlan owner
  require (plan.beneficiaries.any (·.address = beneficiary) = true) .notFound
  savePlan { plan with
    beneficiaries := plan.beneficiaries.filter (·.address ≠ beneficiary) }
  publish (.beneficiaryRemoved owner beneficiary)

def setInactivityTimeout (owner : Address) (timeoutSeconds : Nat) :
    InheritanceAction W Unit := do
  enter H ctx owner
  let plan ← loadPlan owner
  savePlan { plan with inactivityTimeout := timeoutSeconds }
  publish (.inactivityTimeoutSet owner timeoutSeconds)

/-- Pays every beneficiary the share of the balance, rounded down. -/
def payShares (totalBalance : Int) : List Beneficiary → Action W Unit
  | [] => pure ()
  | b :: rest => do
    let scaled ← orFail (checkedMul totalBalance b.shareBps) .overflow
    let share ← orFail (checkedDiv scaled 10000) .divisionByZero
    payPositive H b.address share
    payShares totalBalance rest

def claimInheritance (claimer owner : Address) : InheritanceAction W Unit := do
  enter H ctx claimer
  let plan ← loadPlan owner
  require (plan.inactivityTimeout ≠ 0) .cooldownActive
  let inactiveSince ← orFail (checkedAddU64 plan.lastActiveAt plan.inactivityTimeout) .overflow
  require (inactiveSince ≤ ctx.now) .cooldownActive
  validateSharesSum plan.beneficiaries
  require (plan.beneficiaries.any (·.address = claimer) = true) .unauthorized
  let account ← orFail (← load (·.1.flexible.get owner)) .notFound
  require (0 < account.balance) .insufficientBalance
  zoom (payShares H account.balance plan.beneficiaries)
  save (fun st =>
    (st.1.setFlexible owner { account with balance := 0, updatedAt := ctx.now }, st.2))
  save (fun st => (st.1, ⟨st.2.plans.remove owner⟩))
  publish (.inheritanceClaimed claimer owner account.balance ctx.now)

inductive InheritanceOp where
  | designateBeneficiary (owner beneficiary : Address) (shareBps : Nat)
  | removeBeneficiary (owner beneficiary : Address)
  | setInactivityTimeout (owner : Address) (timeoutSeconds : Nat)
  | claimInheritance (claimer owner : Address)

def InheritanceOp.exec : InheritanceOp → InheritanceAction W Unit
  | .designateBeneficiary owner beneficiary shareBps =>
    Vault.designateBeneficiary H ctx owner beneficiary shareBps
  | .removeBeneficiary owner beneficiary => Vault.removeBeneficiary H ctx owner beneficiary
  | .setInactivityTimeout owner timeoutSeconds =>
    Vault.setInactivityTimeout H ctx owner timeoutSeconds
  | .claimInheritance claimer owner => Vault.claimInheritance H ctx claimer owner

end

/-! ### Runs -/

/-- A call of this module, or anything that can happen to the vault. -/
inductive InheritanceMove where
  | call (ctx : Ctx) (op : InheritanceOp)
  | vault (e : Move)

-- the vault's own entrypoints write no plan: nothing calls the function that records activity
def inheritanceStep (self : Address) (s : InheritanceSys World) :
    InheritanceMove → InheritanceSys World
  | .call ctx op => (op.exec (exact self) ctx).after s
  | .vault e =>
    let t := step self ⟨s.store.1, s.log, s.world⟩ e
    ⟨(t.store, s.store.2), t.log, t.world⟩

def InheritanceSys.deployed (tokens : Ledger Address) : InheritanceSys World :=
  ⟨(Store.deployed, ⟨.empty⟩), [], ⟨tokens, []⟩⟩

/-- The ledger time of a call. -/
def InheritanceMove.time : InheritanceMove → Option Nat
  | .call ctx _ => some ctx.now
  | .vault (.call ctx _) => some ctx.now
  | .vault (.wallet _ _ _) => none

/-- Moves in the order of the ledgers they are in: time does not run back. -/
structure InheritanceRun where
  moves : List InheritanceMove
  ordered : (moves.filterMap InheritanceMove.time).Pairwise (· ≤ ·)

/-! ### The history beside a run -/

/-- Who is active in their own flexible account by this call. -/
def Op.activeOwner : Op → Option Address
  | .deposit source _ => some source
  | .withdraw owner _ => some owner
  | _ => none

/-- When an owner was last active, when last since opening a plan, and the plan opened last: its
number and its time. -/
structure OwnerHistory where
  active : Option Nat
  touched : Option Nat
  plan : Option (Nat × Nat)

/-- The time, the history of each owner, how many plans were opened, and which were claimed. -/
structure InheritanceBook where
  clock : Nat
  owners : Address → OwnerHistory
  opened : Nat
  claimed : List Nat

namespace InheritanceBook

def blank : InheritanceBook := ⟨0, fun _ => ⟨none, none, none⟩, 0, []⟩

def tick (b : InheritanceBook) (now : Nat) : InheritanceBook := { b with clock := now }

def act (b : InheritanceBook) (owner : Address) (now : Nat) : InheritanceBook :=
  { b with
    owners := Function.update b.owners owner
      { b.owners owner with active := some now, touched := some now } }

def opens (b : InheritanceBook) (owner : Address) (now : Nat) : InheritanceBook :=
  { b with
    owners := Function.update b.owners owner
      { b.owners owner with touched := none, plan := some (b.opened, now) }
    opened := b.opened + 1 }

def claim (b : InheritanceBook) (owner : Address) : InheritanceBook :=
  { b with claimed := (b.owners owner).plan.toList.map Prod.fst ++ b.claimed }

end InheritanceBook

/-- What a call that succeeds adds to the book. -/
def InheritanceOp.note (op : InheritanceOp) (s : InheritanceSys World) (now : Nat)
    (b : InheritanceBook) : InheritanceBook :=
  match op with
  | .designateBeneficiary owner _ _ => if s.store.2.plans.has owner then b else b.opens owner now
  | .claimInheritance _ owner => b.claim owner
  | .removeBeneficiary _ _ | .setInactivityTimeout _ _ => b

def inheritanceNote (self : Address) (s : InheritanceSys World) (e : InheritanceMove)
    (b : InheritanceBook) : InheritanceBook :=
  match e with
  | .call ctx op =>
    if (op.exec (exact self) ctx).succeeds s then op.note s ctx.now (b.tick ctx.now)
    else b.tick ctx.now
  | .vault (.call ctx op) =>
    if (op.exec (exact self) ctx).succeeds ⟨s.store.1, s.log, s.world⟩ then
      op.activeOwner.elim (b.tick ctx.now) (fun owner => (b.tick ctx.now).act owner ctx.now)
    else b.tick ctx.now
  | .vault (.wallet _ _ _) => b

/-- If the step is a claim that succeeds, `P` holds of it and of the plan it finds. -/
def AtClaim (self : Address) (P : InheritanceBook → Ctx → (claimer owner : Address) →
    InheritancePlan → InheritanceSys World → Prop)
    (p : InheritanceSys World × InheritanceBook) (e : InheritanceMove) : Prop :=
  ∀ ctx claimer owner t, e = .call ctx (.claimInheritance claimer owner) →
    claimInheritance (exact self) ctx claimer owner p.1 = .ok ((), t) →
      ∃ plan, p.1.store.2.plans.get owner = some plan ∧ P p.2 ctx claimer owner plan t

/-- The plan is at least the timeout old, its shares are complete, the claimer signed and is one of
the beneficiaries, and the plan is gone afterwards. -/
def ClaimLawful (b : InheritanceBook) (ctx : Ctx) (claimer owner : Address)
    (plan : InheritancePlan) (t : InheritanceSys World) : Prop :=
  (∃ number created, (b.owners owner).plan = some (number, created) ∧ number ∉ b.claimed ∧
      created + plan.inactivityTimeout ≤ ctx.now) ∧
    0 < plan.inactivityTimeout ∧ (plan.beneficiaries.map (·.shareBps)).sum = 10000 ∧
    (∃ b ∈ plan.beneficiaries, b.address = claimer) ∧ claimer ∈ ctx.auths ∧
    t.store.2.plans.get owner = none

/-- The owner's last deposit or withdrawal is at least the timeout old. -/
def ClaimWaits (b : InheritanceBook) (ctx : Ctx) (_ owner : Address) (plan : InheritancePlan)
    (_ : InheritanceSys World) : Prop :=
  ∀ time, (b.owners owner).active = some time → time + plan.inactivityTimeout ≤ ctx.now

/-- Since the plan was opened, the owner has made no deposit or withdrawal within the timeout. -/
def QuietSincePlan (b : InheritanceBook) (ctx : Ctx) (_ owner : Address) (plan : InheritancePlan)
    (_ : InheritanceSys World) : Prop :=
  ∀ time, (b.owners owner).touched = some time → time + plan.inactivityTimeout ≤ ctx.now

variable {self : Address} {ctx : Ctx} {s t : InheritanceSys World} {u : Unit}
  {owner claimer : Address} {b : InheritanceBook}

/-! ### What a successful call found and wrote -/

theorem foldlM_shares {beneficiaries : List Beneficiary} {start total : Nat}
    (h : beneficiaries.foldlM (fun total b => checkedAddU32 total b.shareBps) start = some total) :
    start + (beneficiaries.map (·.shareBps)).sum = total := by
  induction beneficiaries generalizing start with
  | nil => simpa using h
  | cons b beneficiaries ih =>
    rw [foldlM_cons, Option.bind_eq_bind, Option.bind_eq_some_iff] at h
    obtain ⟨next, hn, h⟩ := h
    obtain ⟨-, rfl⟩ := checkedAddU32_some.mp hn
    have hr := ih h
    rw [map_cons, sum_cons]
    omega

theorem totalShares_some {beneficiaries : List Beneficiary} {total : Nat}
    (h : totalShares beneficiaries = some total) :
    (beneficiaries.map (·.shareBps)).sum = total :=
  (Nat.zero_add _).symm.trans (foldlM_shares h)

/-- A plan is written over with its owner and its clock kept. -/
def PlanRewritten (owner : Address) (s t : InheritanceSys World) : Prop :=
  ∃ plan plan', s.store.2.plans.get owner = some plan ∧
    t.store.2.plans = s.store.2.plans.set plan.owner plan' ∧ plan'.owner = plan.owner ∧
    plan'.lastActiveAt = plan.lastActiveAt

theorem designateBeneficiary_ok {beneficiary : Address} {shareBps : Nat}
    (h : designateBeneficiary (exact self) ctx owner beneficiary shareBps s = .ok (u, t)) :
    (s.store.2.plans.get owner = none ∧ ∃ plan, t.store.2.plans = s.store.2.plans.set owner plan ∧
      plan.owner = owner ∧ plan.lastActiveAt = ctx.now) ∨ PlanRewritten owner s t := by
  simp only [designateBeneficiary, bind_enter, savePlan, bind_rules] at h
  obtain ⟨-, -, rfl⟩ := h
  cases hg : s.store.2.plans.get owner with
  | none => exact .inl ⟨rfl, _, rfl, rfl, rfl⟩
  | some plan => exact .inr ⟨plan, _, hg, rfl, rfl, rfl⟩

theorem removeBeneficiary_ok {beneficiary : Address}
    (h : removeBeneficiary (exact self) ctx owner beneficiary s = .ok (u, t)) :
    PlanRewritten owner s t := by
  simp only [removeBeneficiary, bind_enter, loadPlan, savePlan, bind_rules] at h
  obtain ⟨-, plan, hg, -, rfl⟩ := h
  exact ⟨plan, _, hg, rfl, rfl, rfl⟩

theorem setInactivityTimeout_ok {timeoutSeconds : Nat}
    (h : setInactivityTimeout (exact self) ctx owner timeoutSeconds s = .ok (u, t)) :
    PlanRewritten owner s t := by
  simp only [setInactivityTimeout, bind_enter, loadPlan, savePlan, bind_rules] at h
  obtain ⟨-, plan, hg, rfl⟩ := h
  exact ⟨plan, _, hg, rfl, rfl, rfl⟩

/-- What every beneficiary is due. -/
def InheritancePlan.parts (plan : InheritancePlan) (balance : Int) : List (Address × Int) :=
  plan.beneficiaries.map (fun b => (b.address, balance * b.shareBps / 10000))

theorem payShares_ok {balance : Int} {bs : List Beneficiary} {v v' : Sys World}
    (hb : 0 ≤ balance) (h : payShares (exact self) balance bs v = .ok (u, v')) :
    v.world.payAll self (bs.map fun b => (b.address, balance * b.shareBps / 10000)) =
      some v'.world := by
  induction bs generalizing v with
  | nil =>
    obtain ⟨-, rfl⟩ := pure_ok.mp h
    rfl
  | cons b bs ih =>
    simp only [payShares, checkedMul_some, checkedDiv_some, bind_rules] at h
    obtain ⟨_, ⟨-, rfl⟩, _, ⟨-, -, rfl⟩, h⟩ := h
    obtain ⟨w, hw, h⟩ := bind_payPositive h
    have hpr : 0 ≤ balance * b.shareBps := mul_nonneg hb (Int.natCast_nonneg _)
    rw [Int.tdiv_eq_ediv_of_nonneg hpr] at hw
    rw [map_cons, World.payAll]
    by_cases hz : balance * b.shareBps / 10000 = 0
    · rw [World.payPositive, if_neg (by omega)] at hw
      obtain rfl := Option.some.inj hw
      rw [if_pos hz]
      exact ih h
    · rw [World.payPositive, if_pos (by omega)] at hw
      rw [if_neg hz, hw]
      exact ih h

theorem claimInheritance_ok (h : claimInheritance (exact self) ctx claimer owner s = .ok (u, t)) :
    claimer ∈ ctx.auths ∧ ∃ plan, s.store.2.plans.get owner = some plan ∧
      0 < plan.inactivityTimeout ∧ plan.lastActiveAt + plan.inactivityTimeout ≤ ctx.now ∧
      (plan.beneficiaries.map (·.shareBps)).sum = 10000 ∧
      (∃ b ∈ plan.beneficiaries, b.address = claimer) ∧
      t.store.2.plans = s.store.2.plans.remove owner ∧
      ∃ account, s.store.1.flexible.get owner = some account ∧ 0 < account.balance ∧
        s.world.payAll self (plan.parts account.balance) = some t.world ∧
        t.store.1.flexible.get owner =
          some { account with balance := 0, updatedAt := ctx.now } := by
  simp only [claimInheritance, bind_enter, loadPlan, checkedAddU64_some, bind_rules] at h
  obtain ⟨⟨-, -, hsg, -⟩, plan, hg, ht, _, ⟨-, rfl⟩, hn, h⟩ := h
  obtain ⟨_, _, hs, h⟩ := bind_ok.mp h
  simp only [validateSharesSum, require_ok, bind_rules] at hs
  obtain ⟨total, htt, hc, rfl⟩ := hs
  simp only [bind_zoom, bind_rules] at h
  obtain ⟨hh, account, ha, hps, _, v, hpy, rfl⟩ := h
  obtain ⟨b, hb, had⟩ := any_eq_true.mp hh
  refine ⟨hsg, plan, hg, Nat.pos_of_ne_zero ht, hn, ?_,
    ⟨b, hb, of_decide_eq_true had⟩, rfl, account, ha, hps, payShares_ok hps.le hpy,
    get_set_self _ _ _⟩
  have hne : plan.beneficiaries ≠ [] := ne_nil_of_mem hb
  rw [totalShares_some htt]
  by_contra ho
  exact hc ⟨hne, ho⟩

/-! ### The book follows the run -/

/-- What the history of an owner says of the stored plan. -/
structure OwnerHistory.Tracks (h : OwnerHistory) (owner : Address) (b : InheritanceBook)
    (stored : Option InheritancePlan) : Prop where
  stored : ∀ plan, stored = some plan → plan.owner = owner ∧
    ∃ number, h.plan = some (number, plan.lastActiveAt) ∧ number ∉ b.claimed
  plan : ∀ number created, h.plan = some (number, created) → number < b.opened ∧ created ≤ b.clock
  active : ∀ time, h.active = some time → time ≤ b.clock
  touched : ∀ time, h.touched = some time → h.active = some time
  earlier : ∀ time, h.active = some time → h.touched = some time ∨
    ∀ number created, h.plan = some (number, created) → time ≤ created

/-- Every owner's history tracks the plan, plans have numbers of their own, and none was claimed
twice. -/
structure InheritanceTracks (s : InheritanceSys World) (b : InheritanceBook) : Prop where
  owners : ∀ owner, (b.owners owner).Tracks owner b (s.store.2.plans.get owner)
  numbers : ∀ owner other number created created', (b.owners owner).plan = some (number, created) →
    (b.owners other).plan = some (number, created') → owner = other
  claimed : ∀ number ∈ b.claimed, number < b.opened
  once : b.claimed.Nodup

theorem InheritanceTracks.blank (tokens : Ledger Address) :
    InheritanceTracks (.deployed tokens) .blank where
  owners owner := by constructor <;> simp [InheritanceBook.blank, InheritanceSys.deployed]
  numbers := by simp [InheritanceBook.blank]
  claimed := by simp [InheritanceBook.blank]
  once := nodup_nil

section

variable (h : InheritanceTracks s b)

include h

theorem InheritanceTracks.tick {now : Nat} (hn : b.clock ≤ now) :
    InheritanceTracks s (b.tick now) :=
  { h with
    owners := fun owner => { h.owners owner with
      plan := fun number created hpl =>
        ((h.owners owner).plan number created hpl).imp_right hn.trans'
      active := fun time ht => ((h.owners owner).active time ht).trans hn } }

/-- Only the plans matter to the book. -/
theorem InheritanceTracks.same (hpl : t.store.2 = s.store.2) : InheritanceTracks t b :=
  { h with owners := hpl ▸ h.owners }

theorem InheritanceTracks.act (owner : Address) : InheritanceTracks s (b.act owner b.clock) where
  owners other := by
    have ho := h.owners other
    by_cases hne : other = owner
    · subst hne
      simp only [InheritanceBook.act, Function.update_self]
      refine ⟨ho.stored, ho.plan, ?_, fun _ => id, fun _ => .inl⟩
      intro time ht
      exact (Option.some.inj ht).ge
    · simp only [InheritanceBook.act, Function.update_of_ne hne]
      exact { ho with }
  numbers first second number created created' hf hs := by
    -- the plan of an owner stands as it did
    have hpl : ∀ other, ((b.act owner b.clock).owners other).plan = (b.owners other).plan := by
      intro other
      simp only [InheritanceBook.act, Function.update_apply]
      split_ifs with hne
      · rw [hne]
      · rfl
    rw [hpl] at hf hs
    exact h.numbers first second number created created' hf hs
  claimed := h.claimed
  once := h.once

theorem InheritanceTracks.rewrite (hpl : PlanRewritten owner s t) : InheritanceTracks t b := by
  obtain ⟨plan, plan', hg, hpn, how, ha⟩ := hpl
  obtain ⟨hk, hn⟩ := (h.owners owner).stored plan hg
  refine { h with owners := fun other => { h.owners other with stored := fun p hp => ?_ } }
  rw [hpn, hk] at hp
  rcases get_set_cases hp with ⟨rfl, rfl⟩ | ⟨-, hp⟩
  · exact ⟨how.trans hk, ha ▸ hn⟩
  · exact (h.owners other).stored p hp

/-- A new plan has a number that no other has, and its clock is the present. -/
theorem InheritanceTracks.opens {plan : InheritancePlan} (how : plan.owner = owner)
    (ha : plan.lastActiveAt = b.clock)
    (hpn : t.store.2.plans = s.store.2.plans.set owner plan) :
    InheritanceTracks t (b.opens owner b.clock) where
  owners other := by
    have hold := h.owners other
    rw [hpn, get_set]
    by_cases ho : other = owner
    · subst ho
      simp only [InheritanceBook.opens, Function.update_self, if_true]
      constructor
      · intro p hp
        obtain rfl := Option.some.inj hp
        refine ⟨how, b.opened, by rw [ha], ?_⟩
        intro hm
        exact absurd (h.claimed b.opened hm) (lt_irrefl _)
      · intro number created hn
        obtain ⟨rfl, rfl⟩ := Prod.mk.inj (Option.some.inj hn)
        exact ⟨Nat.lt_succ_self _, le_refl _⟩
      · exact hold.active
      · exact fun _ ht => absurd ht (Option.some_ne_none _).symm
      · intro time htm
        right
        intro number created hn
        obtain ⟨rfl, rfl⟩ := Prod.mk.inj (Option.some.inj hn)
        exact hold.active time htm
    · rw [if_neg ho]
      simp only [InheritanceBook.opens, Function.update_of_ne ho]
      exact { hold with plan := fun number created hn =>
        (hold.plan number created hn).imp_left Nat.lt_succ_of_lt }
  numbers first second number created created' hf hs := by
    have hb : ∀ other created, (b.owners other).plan ≠ some (b.opened, created) :=
      fun other created hpl => absurd ((h.owners other).plan _ _ hpl).1 (lt_irrefl _)
    simp only [InheritanceBook.opens, Function.update_apply] at hf hs
    split_ifs at hf hs with h₁ h₂ h₂
    · exact h₁.trans h₂.symm
    · obtain ⟨rfl, -⟩ := Prod.mk.inj (Option.some.inj hf)
      exact absurd hs (hb second created')
    · obtain ⟨rfl, -⟩ := Prod.mk.inj (Option.some.inj hs)
      exact absurd hf (hb first created)
    · exact h.numbers first second number created created' hf hs
  claimed number hm := (h.claimed number hm).trans (Nat.lt_succ_self _)
  once := h.once

theorem InheritanceTracks.claim {plan : InheritancePlan}
    (hg : s.store.2.plans.get owner = some plan)
    (hpl : t.store.2.plans = s.store.2.plans.remove owner) :
    InheritanceTracks t (b.claim owner) := by
  obtain ⟨-, number, hnm, hf⟩ := (h.owners owner).stored plan hg
  have hc : (b.claim owner).claimed = number :: b.claimed := by
    simp only [InheritanceBook.claim, hnm, Option.toList_some, map_cons, map_nil,
      singleton_append]
  refine { h with
    owners := fun other => { h.owners other with stored := fun p hp => ?_ }
    claimed := fun n hn => ?_
    once := hc ▸ nodup_cons.mpr ⟨hf, h.once⟩ }
  · rw [hpl, get_remove] at hp
    split_ifs at hp with ho
    obtain ⟨hk, number', hnm', hnt⟩ := (h.owners other).stored p hp
    refine ⟨hk, number', hnm', ?_⟩
    rw [hc, mem_cons, not_or]
    refine ⟨?_, hnt⟩
    rintro rfl
    exact ho (h.numbers other owner _ _ _ hnm' hnm)
  · rw [hc, mem_cons] at hn
    rcases hn with rfl | hn
    · exact ((h.owners owner).plan _ _ hnm).1
    · exact h.claimed n hn

theorem InheritanceTracks.exec {op : InheritanceOp} (hnw : b.clock = ctx.now)
    (hok : op.exec (exact self) ctx s = .ok (u, t)) :
    InheritanceTracks t (op.note s ctx.now b) := by
  cases op with
  | designateBeneficiary owner beneficiary shareBps =>
    rcases designateBeneficiary_ok hok with ⟨hn, plan, hpl, ho, ha⟩ | hr
    · have hh : s.store.2.plans.has owner = false := by rw [has, hn]; rfl
      simp only [InheritanceOp.note, hh, Bool.false_eq_true, if_false, ← hnw]
      exact h.opens ho (ha.trans hnw.symm) hpl
    · have hh : s.store.2.plans.has owner = true := by
        obtain ⟨plan, -, hg, -⟩ := hr
        rw [has, hg]
        rfl
      simp only [InheritanceOp.note, hh, if_true]
      exact h.rewrite hr
  | removeBeneficiary owner beneficiary => exact h.rewrite (removeBeneficiary_ok hok)
  | setInactivityTimeout owner timeoutSeconds => exact h.rewrite (setInactivityTimeout_ok hok)
  | claimInheritance claimer owner =>
    obtain ⟨-, plan, hg, -, -, -, -, hpl, -⟩ := claimInheritance_ok hok
    exact h.claim hg hpl

end

/-- The step comes no earlier than what the book has seen. -/
def OnTime (p : InheritanceSys World × InheritanceBook) (e : InheritanceMove) : Prop :=
  ∀ now, e.time = some now → p.2.clock ≤ now

theorem inheritanceNote_clock (s : InheritanceSys World) (e : InheritanceMove)
    (b : InheritanceBook) : (inheritanceNote self s e b).clock = e.time.getD b.clock := by
  cases e with
  | call ctx op =>
    simp only [inheritanceNote, InheritanceMove.time, Option.getD_some]
    split_ifs
    · cases op with
      | designateBeneficiary owner beneficiary shareBps =>
        simp only [InheritanceOp.note]
        split_ifs <;> rfl
      | _ => rfl
    · rfl
  | vault e =>
    cases e with
    | call ctx op =>
      simp only [inheritanceNote, InheritanceMove.time, Option.getD_some]
      split_ifs
      · cases op.activeOwner <;> rfl
      · rfl
    | wallet source target amount => rfl

theorem onTime_of_ordered {p : InheritanceSys World × InheritanceBook}
    {es : List InheritanceMove} (hl : ∀ now ∈ es.filterMap InheritanceMove.time, p.2.clock ≤ now)
    (ho : (es.filterMap InheritanceMove.time).Pairwise (· ≤ ·)) :
    AllSteps (watch (inheritanceStep self) (inheritanceNote self)) OnTime p es := by
  induction es generalizing p with
  | nil => trivial
  | cons e es ih =>
    have hc : (watch (inheritanceStep self) (inheritanceNote self) p e).2.clock =
        e.time.getD p.2.clock := inheritanceNote_clock p.1 e p.2
    cases ht : e.time with
    | none =>
      rw [filterMap_cons_none ht] at hl ho
      refine ⟨fun now hn => ?_, ih ?_ ho⟩
      · rw [ht] at hn
        exact absurd hn (Option.some_ne_none now).symm
      · rw [hc, ht]
        exact hl
    | some now =>
      rw [filterMap_cons_some ht] at hl ho
      obtain ⟨hf, hr⟩ := pairwise_cons.mp ho
      refine ⟨fun now' hn => ?_, ih ?_ hr⟩
      · obtain rfl := Option.some.inj (ht.symm.trans hn)
        exact hl now mem_cons_self
      · rw [hc, ht]
        exact hf

section

variable (p : InheritanceSys World × InheritanceBook) (e : InheritanceMove)
  (hp : InheritanceTracks p.1 p.2)

include p e hp

theorem inheritance_tracks_step (htm : OnTime p e) :
    InheritanceTracks (inheritanceStep self p.1 e) (inheritanceNote self p.1 e p.2) := by
  obtain ⟨s, b⟩ := p
  cases e with
  | call ctx op =>
    have htc := hp.tick (htm ctx.now rfl)
    rcases after_cases (op.exec (exact self) ctx) s with ⟨u, t, hok, ht⟩ | ⟨⟨_, hf⟩, ht⟩
    · simp only [inheritanceStep, inheritanceNote, ht, succeeds_of_ok hok, if_true]
      exact htc.exec rfl hok
    · simp only [inheritanceStep, inheritanceNote, ht, fails_of_error hf,
        Bool.false_eq_true, if_false]
      exact htc
  | vault e =>
    cases e with
    | call ctx op =>
      have htc := hp.tick (htm ctx.now rfl)
      refine InheritanceTracks.same (s := s) ?_ rfl
      simp only [inheritanceNote]
      split_ifs
      · cases op.activeOwner with
        | none => exact htc
        | some owner => exact htc.act owner
      · exact htc
    | wallet source target amount => exact hp.same rfl

/-! ### Claims -/

theorem claim_lawful : AtClaim self ClaimLawful p e := by
  intro ctx claimer owner t _ hok
  obtain ⟨hsg, plan, hg, ht, hnw, hs, hh, hpl, -⟩ := claimInheritance_ok hok
  obtain ⟨-, number, hn, hf⟩ := (hp.owners owner).stored plan hg
  refine ⟨plan, hg, ⟨number, _, hn, hf, hnw⟩, ht, hs, hh, hsg, ?_⟩
  rw [hpl, get_remove, if_pos rfl]

/-- What the owner did before opening the plan is older than the plan. -/
theorem claim_waits_iff : AtClaim self ClaimWaits p e ↔ AtClaim self QuietSincePlan p e := by
  constructor
  · intro hw ctx claimer owner t he hok
    obtain ⟨plan, hg, ha⟩ := hw ctx claimer owner t he hok
    exact ⟨plan, hg, fun time ht =>
      ha time ((hp.owners owner).touched time ht)⟩
  · intro hq ctx claimer owner t he hok
    obtain ⟨plan, hg, ht⟩ := hq ctx claimer owner t he hok
    refine ⟨plan, hg, fun time ha => ?_⟩
    rcases (hp.owners owner).earlier time ha with htm | hb
    · exact ht time htm
    · obtain ⟨plan', hg', ⟨number, created, hn, -, hnw⟩, -⟩ :=
        claim_lawful p e hp ctx claimer owner t he hok
      obtain rfl : plan = plan' := Option.some.inj (hg.symm.trans hg')
      have hle := hb number created hn
      omega

end

/-- Every claim that succeeds finds a complete plan that is at least the timeout old and removes
it, and no plan is claimed twice. The claims all come at least the timeout after the owner's last
deposit or withdrawal exactly when none follows a deposit or withdrawal made since its plan was
opened by less than the timeout. -/
theorem inheritance_waits_iff (self : Address) (tokens : Ledger Address) (run : InheritanceRun) :
    AllSteps (watch (inheritanceStep self) (inheritanceNote self)) (AtClaim self ClaimLawful)
      (.deployed tokens, .blank) run.moves ∧
    AllStates (watch (inheritanceStep self) (inheritanceNote self)) (fun p => p.2.claimed.Nodup)
      (.deployed tokens, .blank) run.moves ∧
    (AllSteps (watch (inheritanceStep self) (inheritanceNote self)) (AtClaim self ClaimWaits)
        (.deployed tokens, .blank) run.moves ↔
      AllSteps (watch (inheritanceStep self) (inheritanceNote self)) (AtClaim self QuietSincePlan)
        (.deployed tokens, .blank) run.moves) := by
  have hs : InheritanceTracks (InheritanceSys.deployed tokens) InheritanceBook.blank :=
    .blank tokens
  have ho : AllSteps (watch (inheritanceStep self) (inheritanceNote self)) OnTime
      (InheritanceSys.deployed tokens, InheritanceBook.blank) run.moves :=
    onTime_of_ordered (fun _ _ => Nat.zero_le _) run.ordered
  refine ⟨?_, ?_, ?_⟩
  · exact invariant_allSteps (I := fun p => InheritanceTracks p.1 p.2) inheritance_tracks_step
      (fun p e hp _ => claim_lawful p e hp) hs ho
  · exact (invariant_allStates (I := fun p => InheritanceTracks p.1 p.2) inheritance_tracks_step
      hs ho).mono (fun _ hp => hp.once)
  · exact allSteps_congr (I := fun p => InheritanceTracks p.1 p.2) inheritance_tracks_step
      (fun p e hp _ => claim_waits_iff p e hp) hs ho

/-- An owner who opens a plan with a timeout of 100 and deposits 90 later. -/
def activeOwnerRun : InheritanceRun where
  moves := [.vault (.call ⟨10, 1, [1]⟩ (.setup 1 9)),
    .vault (.call ⟨1000, 2, [2]⟩ (.deposit 2 500)),
    .call ⟨1000, 3, [2]⟩ (.designateBeneficiary 2 7 10000),
    .call ⟨1000, 4, [2]⟩ (.setInactivityTimeout 2 100),
    .vault (.call ⟨1090, 5, [2]⟩ (.deposit 2 100))]
  ordered := by decide

/-- Another 90 later the heir takes everything. -/
theorem activeOwnerRun_claimed :
    let p := runFrom (watch (inheritanceStep 0) (inheritanceNote 0))
      (.deployed purse, .blank) activeOwnerRun.moves
    let claim := claimInheritance (exact 0) ⟨1180, 6, [7]⟩ 7 2
    (p.2.owners 2).active = some 1090 ∧
      (p.1.store.2.plans.get 2).map (·.inactivityTimeout) = some 100 ∧ claim.succeeds p.1 = true ∧
      (claim.after p.1).world.tokens 7 = 600 := by
  decide +kernel

/-! ### What the heirs get -/

/-- A claim empties the account and pays every beneficiary their share of it, rounded down. This
is the whole balance exactly when no share is rounded. -/
theorem inheritance_complete_iff (ctx : Ctx) (self claimer owner : Address)
    (s t : InheritanceSys World)
    (h : claimInheritance (exact self) ctx claimer owner s = .ok ((), t)) :
    ∃ plan account, s.store.2.plans.get owner = some plan ∧
      s.store.1.flexible.get owner = some account ∧
      t.world.journal = s.world.journal ++ transfersOf self (plan.beneficiaries.map
        fun b => (b.address, account.balance * b.shareBps / 10000)) ∧
      t.store.1.flexible.get owner = some { account with balance := 0, updatedAt := ctx.now } ∧
      ((plan.beneficiaries.map fun b => account.balance * b.shareBps / 10000).sum =
          account.balance ↔
        ∀ b ∈ plan.beneficiaries, (10000 : Int) ∣ account.balance * b.shareBps) := by
  obtain ⟨-, plan, hpl, -, -, hs, -, -, account, ha, -, hpy, hem⟩ :=
    claimInheritance_ok h
  refine ⟨plan, account, hpl, ha, World.payAll_journal hpy, hem, ?_⟩
  have hsm : (plan.beneficiaries.map fun b => account.balance * (b.shareBps : Int)).sum =
      account.balance * 10000 := by
    have hc : (plan.beneficiaries.map fun b => (b.shareBps : Int)).sum = 10000 := by
      have hsm := congrArg (Nat.cast (R := Int)) hs
      rwa [Nat.cast_list_sum, map_map] at hsm
    rw [sum_map_mul_left, hc]
  have he := floor_sum_eq_iff (d := 10000) (by decide)
    (plan.beneficiaries.map fun b => account.balance * (b.shareBps : Int))
  rw [hsm, map_map, forall_mem_map] at he
  rw [← he, Function.comp_def]
  omega

/-- Two heirs with half each of a single unit. -/
def halvedRun : List InheritanceMove :=
  [.vault (.call ⟨10, 1, [1]⟩ (.setup 1 9)), .vault (.call ⟨10, 2, [2]⟩ (.deposit 2 1)),
    .call ⟨10, 3, [2]⟩ (.designateBeneficiary 2 7 5000),
    .call ⟨10, 4, [2]⟩ (.designateBeneficiary 2 8 5000),
    .call ⟨10, 5, [2]⟩ (.setInactivityTimeout 2 100)]

/-- With a second unit each heir gets one. -/
theorem twoHeirs_complete :
    let s := runFrom (inheritanceStep 0) (.deployed purse)
      (halvedRun ++ [.vault (.call ⟨10, 6, [2]⟩ (.deposit 2 1))])
    ∃ plan account, s.store.2.plans.get 2 = some plan ∧
      plan.beneficiaries = [⟨7, 5000⟩, ⟨8, 5000⟩] ∧ s.store.1.flexible.get 2 = some account ∧
      account.balance = 2 ∧
      (plan.beneficiaries.map fun b => account.balance * b.shareBps / 10000).sum =
        account.balance := by
  intro s
  obtain ⟨plan, account, hpl, ha, -, -, hi⟩ := inheritance_complete_iff
    ⟨110, 7, [7]⟩ 0 7 2 s _ (after_of_succeeds (by decide +kernel))
  have hh : (s.store.2.plans.get 2).map (·.beneficiaries) = some [⟨7, 5000⟩, ⟨8, 5000⟩] ∧
      (s.store.1.flexible.get 2).map (·.balance) = some 2 := by
    decide +kernel
  rw [hpl, ha] at hh
  have hs : plan.beneficiaries = _ := Option.some.inj hh.1
  have hb : account.balance = 2 := Option.some.inj hh.2
  refine ⟨plan, account, hpl, hs, ha, hb, hi.mpr ?_⟩
  rw [hs, hb]
  decide

/-- The claim succeeds, nobody is paid, and the account is empty. -/
theorem halvedRun_lost :
    let s := runFrom (inheritanceStep 0) (.deployed purse) halvedRun
    let claim := claimInheritance (exact 0) ⟨110, 6, [7]⟩ 7 2
    claim.succeeds s = true ∧ (s.store.1.flexible.get 2).map (·.balance) = some 1 ∧
      ((claim.after s).store.1.flexible.get 2).map (·.balance) = some 0 ∧
      (claim.after s).world.journal = s.world.journal := by
  decide +kernel

end Stow.Vault
