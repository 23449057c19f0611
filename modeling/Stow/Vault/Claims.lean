import Stow.Vault.Emergency

/-! Insurance claims along every run: approved, paid once, and covered by the fund or not. -/
namespace Stow.Vault

open Stow.Lib Stow.Lib.Contract List Call

/-- What a claim still has to be paid. -/
def InsuranceClaimRecord.due (claim : InsuranceClaimRecord) : Int :=
  if claim.redeemed then 0 else claim.amount

def Store.dueTo (st : Store) (claimant : Address) : Int :=
  (st.insuranceClaims.get claimant).elim 0 (·.due)

/-- All approved claims that have not been paid. -/
def Store.outstanding (st : Store) : Int := st.insuranceClaims.sum (·.due)

/-- The fund covers all of them. -/
def ClaimsBacked (s : Sys World) : Prop := s.store.outstanding ≤ s.store.insuranceFundBalance

instance (s : Sys World) : Decidable (ClaimsBacked s) := inferInstanceAs (Decidable (_ ≤ _))

/-- What a successful call makes of the claims and of the fund. -/
inductive FundStep (a b : Store) : Op → Prop
  | approve {caller claimant : Address} {amount : Int} {now : Nat} (hpos : 0 < amount)
      (hclosed : (a.insuranceClaims.get claimant).all (·.redeemed))
      (hclaims : b.insuranceClaims = a.insuranceClaims.set claimant ⟨claimant, amount, now, false⟩)
      (hfund : b.insuranceFundBalance = a.insuranceFundBalance) :
      FundStep a b (.config (.insuranceApproveClaim caller claimant amount))
  | redeem {claimant : Address} {claim : InsuranceClaimRecord}
      (hget : a.insuranceClaims.get claimant = some claim) (hopen : claim.redeemed = false)
      (hpos : 0 < claim.amount) (hle : claim.amount ≤ a.insuranceFundBalance)
      (hclaims : b.insuranceClaims =
        a.insuranceClaims.set claimant { claim with redeemed := true })
      (hfund : b.insuranceFundBalance = a.insuranceFundBalance - claim.amount) :
      FundStep a b (.insuranceRedeemClaim claimant)
  | grow {op : Op} (happrove : ∀ caller claimant amount,
        op ≠ .config (.insuranceApproveClaim caller claimant amount))
      (hredeem : ∀ claimant, op ≠ .insuranceRedeemClaim claimant)
      (hclaims : b.insuranceClaims = a.insuranceClaims)
      (hfund : a.insuranceFundBalance ≤ b.insuranceFundBalance)
      (hfits : FitsI128 a.insuranceFundBalance → FitsI128 b.insuranceFundBalance) :
      FundStep a b op

variable {self : Address} {ctx : Ctx} {u : Unit} {s t : Sys World} {op : Op}

/-! ### One call -/

theorem collectPremium_fits {W : Type} {s t : Sys W} {amount premium : Int}
    (hs : FitsI128 s.store.insuranceFundBalance)
    (h : collectPremium amount s = .ok (premium, t)) : FitsI128 t.store.insuranceFundBalance := by
  rcases ite_ok.mp h with ⟨-, h⟩ | ⟨-, h⟩
  · obtain ⟨-, rfl⟩ := pure_ok.mp h
    exact hs
  · simp only [bind_rules] at h
    obtain ⟨_, -, h⟩ := h
    rcases ite_ok.mp h with ⟨-, h⟩ | ⟨-, h⟩
    · simp only [bind_rules] at h
      obtain ⟨_, ⟨hf, rfl⟩, -, rfl⟩ := h
      exact hf
    · obtain ⟨-, rfl⟩ := pure_ok.mp h
      exact hs

theorem FundStep.of_frame (ha : ∀ caller claimant amount,
      op ≠ .config (.insuranceApproveClaim caller claimant amount))
    (hr : ∀ claimant, op ≠ .insuranceRedeemClaim claimant)
    (h : t.store.insuranceRecords = s.store.insuranceRecords) :
    FundStep s.store t.store op := by
  have hc : t.store.insuranceClaims = s.store.insuranceClaims := congrArg Prod.fst h
  have hf : t.store.insuranceFundBalance = s.store.insuranceFundBalance :=
    congrArg Prod.snd h
  exact .grow ha hr hc hf.ge (fun hft => hf ▸ hft)

theorem exec_fundStep (hs : s.store.Sound False False)
    (h : op.exec (exact self) ctx s = .ok (u, t)) : FundStep s.store t.store op := by
  by_cases hop : op.writesInsurance = true
  · cases op with
    | setup admin token =>
      obtain ⟨ha, hst, -⟩ := initializeVault_ok h
      -- nothing was paid in before initialization, so the fund is not reset
      have hz := (hs.unset ha).2.1
      rw [hst]
      exact .grow (fun _ _ _ => Op.noConfusion) (fun _ => Op.noConfusion) rfl hz.le
        (fun _ => show FitsI128 0 by decide)
    | config cop =>
      cases cop with
      | insuranceApproveClaim caller claimant amount =>
        simp only [Op.exec, ConfigOp.exec, insuranceApproveClaim, entry_rules] at h
        obtain ⟨-, -, hps, _, -, -, -, hc, rfl⟩ := h
        exact .approve hps hc rfl rfl
      | _ => simp [Op.writesInsurance] at hop
    | deposit source amount =>
      simp only [Op.exec, deposit, transferIn, entry_rules] at h
      obtain ⟨-, -, -, -, hps, -, _, -, -, -, w, -, h⟩ := h
      obtain ⟨premium, t₁, hp, h⟩ := bind_ok.mp h
      have hf := fun hs => collectPremium_fits hs hp
      obtain ⟨hv, rfl⟩ := collectPremium_ok hps.le hp
      simp only [bind_rules] at h
      obtain ⟨_, -, rfl⟩ := h
      refine .grow (fun _ _ _ => Op.noConfusion) (fun _ => Op.noConfusion) rfl ?_ hf
      have hnn : 0 ≤ premium := hv ▸ bpsPart_nonneg hps.le
      exact le_add_of_nonneg_right hnn
    | insuranceFund caller amount =>
      simp only [Op.exec, insuranceFund, transferIn, entry_rules] at h
      obtain ⟨-, -, hps, -, w, -, _, ⟨hf, rfl⟩, rfl⟩ := h
      exact .grow (fun _ _ _ => Op.noConfusion) (fun _ => Op.noConfusion) rfl
        (le_add_of_nonneg_right hps.le) (fun _ => hf)
    | insuranceRedeemClaim claimant =>
      obtain ⟨_, h⟩ := of_void h
      obtain ⟨-, -, claim, hg, ho, rfl, hps, hle, -, hst⟩ := insuranceRedeemClaim_ok h
      rw [hst]
      exact .redeem hg ho hps hle rfl rfl
    | _ => simp [Op.writesInsurance] at hop
  · have hop : op.writesInsurance = false := Bool.eq_false_of_not_eq_true hop
    refine .of_frame ?_ ?_ ((exec_frame h).insurance hop)
    · rintro caller claimant amount rfl
      exact Bool.false_ne_true hop.symm
    · rintro claimant rfl
      exact Bool.false_ne_true hop.symm

/-! ### What the fund owes -/

/-- The fund is never negative, and every claim was approved for a positive amount. -/
structure Store.ClaimsSound (st : Store) : Prop where
  fund : 0 ≤ st.insuranceFundBalance
  fits : FitsI128 st.insuranceFundBalance
  amounts : st.insuranceClaims.Forall (fun _ claim => 0 < claim.amount)

section

variable {a b : Store}

theorem FundStep.claimsSound (h : FundStep a b op) (ha : a.ClaimsSound) : b.ClaimsSound := by
  cases h with
  | approve hp _ hc hf =>
    refine ⟨hf ▸ ha.fund, hf ▸ ha.fits, ?_⟩
    rw [hc]
    exact ha.amounts.set hp
  | redeem hg _ hp hle hc hf =>
    refine ⟨by omega, ?_, ?_⟩
    · exact ha.fits.of_le (by omega) (by omega)
    · rw [hc]
      exact ha.amounts.set hp
  | grow _ _ hc hf hft =>
    exact ⟨ha.fund.trans hf, hft ha.fits, hc ▸ ha.amounts⟩

theorem outstanding_approve {claimant : Address} {amount : Int} {now : Nat}
    (hcl : (a.insuranceClaims.get claimant).all (·.redeemed))
    (hc : b.insuranceClaims = a.insuranceClaims.set claimant ⟨claimant, amount, now, false⟩) :
    b.outstanding = a.outstanding + amount := by
  unfold Store.outstanding
  rw [hc, SortedMap.sum_set]
  -- a claim that was there before has been paid
  cases hg : a.insuranceClaims.get claimant with
  | none => simp [InsuranceClaimRecord.due]
  | some claim =>
    have hp : claim.redeemed = true := by simpa [hg] using hcl
    simp [InsuranceClaimRecord.due, hp]

theorem outstanding_redeem {claimant : Address} {claim : InsuranceClaimRecord}
    (hg : a.insuranceClaims.get claimant = some claim) (ho : claim.redeemed = false)
    (hc : b.insuranceClaims =
      a.insuranceClaims.set claimant { claim with redeemed := true }) :
    b.outstanding = a.outstanding - claim.amount := by
  unfold Store.outstanding
  rw [hc, SortedMap.sum_set, hg]
  simp [InsuranceClaimRecord.due, ho]

theorem due_le_outstanding (ha : a.ClaimsSound) {claimant : Address}
    {claim : InsuranceClaimRecord} (hg : a.insuranceClaims.get claimant = some claim)
    (ho : claim.redeemed = false) : claim.amount ≤ a.outstanding := by
  have hd : claim.due = claim.amount := by simp [InsuranceClaimRecord.due, ho]
  have hnn : a.insuranceClaims.Forall (fun _ claim => 0 ≤ claim.due) := by
    refine ha.amounts.mono fun _ c hp => ?_
    unfold InsuranceClaimRecord.due
    split
    · exact le_refl _
    · exact hp.le
  exact hd ▸ SortedMap.le_sum hnn hg

end

/-! ### Covered claims -/

/-- An approval leaves the fund able to pay every open claim. -/
def ApprovalFits (vault : Address) (s : Sys World) : Move → Prop
  | .call ctx (.config (.insuranceApproveClaim caller claimant amount)) =>
    (insuranceApproveClaim (exact vault) ctx caller claimant amount).succeeds s = true →
      s.store.outstanding + amount ≤ s.store.insuranceFundBalance
  | _ => True

/-- What is known of the storage in every run. -/
structure Store.Insured (st : Store) : Prop where
  sound : st.Sound False False
  exits : st.ExitsReady
  claims : st.ClaimsSound

theorem insured_deployed : Store.deployed.Insured where
  sound := deployed_sound
  exits := ⟨rfl, fun h => absurd rfl h, fun h => absurd h Bool.false_ne_true, .empty⟩
  claims := ⟨le_refl _, by decide, .empty⟩

theorem exec_insured (hs : s.store.Insured) (h : op.exec (exact self) ctx s = .ok (u, t)) :
    t.store.Insured :=
  ⟨exec_sound hs.sound False.elim False.elim h, exec_exitsReady hs.exits h,
    (exec_fundStep hs.sound h).claimsSound hs.claims⟩

theorem insured_step (s : Sys World) (e : Move) (hs : s.store.Insured) :
    (step self s e).store.Insured :=
  step_induction (I := fun s => s.store.Insured) (P := fun _ _ => True)
    (fun _ _ _ _ _ hs _ h => exec_insured hs h) (fun _ _ _ _ hs => hs) s e hs trivial

/-- Only an approval can outrun the fund. -/
theorem backed_step_iff (s : Sys World) (e : Move) (hs : s.store.Insured) (hb : ClaimsBacked s) :
    ClaimsBacked (step self s e) ↔ ApprovalFits self s e := by
  cases e with
  | wallet source target amount => exact iff_of_true hb trivial
  | call ctx op =>
    rcases after_cases (op.exec (exact self) ctx) s with ⟨u, t, hok, ht⟩ | ⟨⟨_, he⟩, ht⟩
    · simp only [step, ht]
      unfold ClaimsBacked at hb ⊢
      cases exec_fundStep hs.sound hok with
      | approve _ hcl hc hf =>
        rw [outstanding_approve hcl hc, hf]
        exact ⟨fun hle _ => hle, fun hft => hft (succeeds_of_ok hok)⟩
      | redeem hg ho _ _ hc hf =>
        rw [outstanding_redeem hg ho hc, hf]
        exact iff_of_true (Int.sub_le_sub_right hb _) trivial
      | grow ha _ hc hf _ =>
        refine iff_of_true ?_ ?_
        · unfold Store.outstanding at hb ⊢
          rw [hc]
          exact hb.trans hf
        · unfold ApprovalFits
          split
          · next heq => exact absurd (Move.call.inj heq).2 (ha _ _ _)
          · trivial
    · simp only [step, ht]
      refine iff_of_true hb ?_
      unfold ApprovalFits
      split
      · next heq =>
        obtain ⟨rfl, rfl⟩ := Move.call.inj heq
        intro hok
        exact absurd (hok.symm.trans (fails_of_error he)) Bool.false_ne_true.symm
      · trivial

/-! ### Redeeming, in any order -/

def Move.succeeds (vault : Address) (s : Sys World) : Move → Bool
  | .call ctx op => (op.exec (exact vault) ctx).succeeds s
  | .wallet _ _ _ => true

/-- Whoever of the insured asks for their claim, in whatever order, is paid, as far as the vault's
tokens reach. -/
def RedeemableInAnyOrder (vault : Address) (s : Sys World) : Prop :=
  ∀ rs : List (Ctx × Address), (rs.map (·.2)).Nodup →
    (∀ r ∈ rs, r.2 ∈ r.1.auths ∧ r.2 ≠ vault ∧
      ∃ claim, s.store.insuranceClaims.get r.2 = some claim ∧ claim.redeemed = false) →
    (rs.map (fun r => s.store.dueTo r.2)).sum ≤ s.world.held vault →
    AllSteps (step vault) (fun s e => e.succeeds vault s = true) s
      (rs.map (fun r => .call r.1 (.insuranceRedeemClaim r.2)))

theorem redeem_open (ctx : Ctx) (hs : s.store.Insured) (hb : ClaimsBacked s) {claimant : Address}
    {claim : InsuranceClaimRecord} (hsg : claimant ∈ ctx.auths ∧ claimant ≠ self)
    (hg : s.store.insuranceClaims.get claimant = some claim) (ho : claim.redeemed = false)
    (hh : claim.amount ≤ s.world.held self) :
    ∃ t, (Op.insuranceRedeemClaim claimant).exec (exact self) ctx s = .ok ((), t) := by
  have hp : 0 < claim.amount := hs.claims.amounts claimant claim hg
  have hle : claim.amount ≤ s.store.insuranceFundBalance :=
    (due_le_outstanding hs.claims hg ho).trans hb
  -- a fund that is not empty belongs to a vault that was initialized
  have ha : s.store.admin ≠ none := by
    intro hn
    have hz := (hs.sound.unset hn).2.1
    omega
  have hf : FitsI128 (s.store.insuranceFundBalance - claim.amount) :=
    hs.claims.fits.of_le (by omega) (by omega)
  obtain ⟨w, hw⟩ := pay_isSome claimant hp hh
  simp only [Op.exec, void_ok, insuranceRedeemClaim, transferOut, entry_rules]
  exact ⟨_, _, hs.exits.idle, hsg, claim, hg, ho, hle,
    ⟨hp, hs.exits.opened ha, hs.exits.idle⟩, w, hw, _, ⟨hf, rfl⟩, rfl, rfl⟩

/-- A redemption leaves the other claims, and what covers them, as they were. -/
theorem redeem_leaves (hs : s.store.Insured) (hb : ClaimsBacked s) {claimant : Address}
    {claim : InsuranceClaimRecord} (hsl : claimant ≠ self)
    (hg : s.store.insuranceClaims.get claimant = some claim)
    (h : (Op.insuranceRedeemClaim claimant).exec (exact self) ctx s = .ok (u, t)) :
    t.store.Insured ∧ ClaimsBacked t ∧ t.world.held self = s.world.held self - claim.amount ∧
      ∀ other, other ≠ claimant →
        t.store.insuranceClaims.get other = s.store.insuranceClaims.get other := by
  have hst : step self s (.call ctx (.insuranceRedeemClaim claimant)) = t := after_ok h
  have hc : ClaimsBacked t :=
    hst ▸ (backed_step_iff s (.call ctx (.insuranceRedeemClaim claimant)) hs hb).mpr trivial
  have hi : t.store.Insured := exec_insured hs h
  obtain ⟨_, h⟩ := of_void h
  obtain ⟨-, -, claim', hg', -, rfl, -, -, hp, hsr⟩ := insuranceRedeemClaim_ok h
  obtain rfl : claim' = claim := Option.some.inj (hg'.symm.trans hg)
  refine ⟨hi, hc, World.pay_source hp hsl.symm, fun other hne => ?_⟩
  rw [hsr, SortedMap.get_set, if_neg hne]

theorem dueTo_of_open {st : Store} {claimant : Address} {claim : InsuranceClaimRecord}
    (hg : st.insuranceClaims.get claimant = some claim) (ho : claim.redeemed = false) :
    st.dueTo claimant = claim.amount := by
  simp [Store.dueTo, hg, InsuranceClaimRecord.due, ho]

theorem redeemable (hs : s.store.Insured) (hb : ClaimsBacked s) :
    RedeemableInAnyOrder self s := by
  intro rs hd hop hh
  induction rs generalizing s with
  | nil => trivial
  | cons r rest ih =>
    obtain ⟨ctx, claimant⟩ := r
    obtain ⟨hn, hd⟩ := nodup_cons.mp hd
    obtain ⟨hsg, hsl, claim, hg, hu⟩ := hop _ mem_cons_self
    simp only [map_cons, sum_cons, dueTo_of_open hg hu] at hh
    have hrs : 0 ≤ (rest.map (fun r => s.store.dueTo r.2)).sum := by
      apply sum_nonneg
      intro x hx
      obtain ⟨r, hr, rfl⟩ := mem_map.mp hx
      obtain ⟨-, -, c, hc, hop⟩ := hop r (mem_cons_of_mem _ hr)
      rw [dueTo_of_open hc hop]
      exact (hs.claims.amounts _ c hc).le
    obtain ⟨t, hok⟩ := redeem_open ctx hs hb ⟨hsg, hsl⟩ hg hu (by omega)
    obtain ⟨hi, hcv, hl, ho⟩ := redeem_leaves hs hb hsl hg hok
    have ho : ∀ r ∈ rest, t.store.insuranceClaims.get r.2 =
        s.store.insuranceClaims.get r.2 := by
      intro r hr
      have hm : r.2 ∈ rest.map (·.2) := mem_map_of_mem hr
      have hne : r.2 ≠ claimant := fun heq => hn (heq ▸ hm)
      exact ho r.2 hne
    have hst : step self s (.call ctx (.insuranceRedeemClaim claimant)) = t := after_ok hok
    refine ⟨succeeds_of_ok hok, ?_⟩
    rw [hst]
    refine ih hi hcv hd ?_ ?_
    · intro r hr
      rw [ho r hr]
      exact hop r (mem_cons_of_mem _ hr)
    · have hsm : rest.map (fun r => t.store.dueTo r.2) =
          rest.map (fun r => s.store.dueTo r.2) := by
        refine map_congr_left fun r hr => ?_
        simp only [Store.dueTo, ho r hr]
      rw [hsm, hl]
      omega

/-! ### Every run -/

/-- An approved claim, numbered by the approvals before it, or the payment of one. -/
structure ClaimEntry where
  id : Nat
  claimant : Address
  amount : Int
  deriving Repr, DecidableEq

structure ClaimBook where
  approved : List ClaimEntry
  paid : List ClaimEntry

/-- The number of the last claim approved for somebody. -/
def ClaimBook.current (b : ClaimBook) (claimant : Address) : Nat :=
  (b.approved.find? (·.claimant = claimant)).elim b.approved.length (·.id)

def claimNote (vault : Address) (s : Sys World) (e : Move) (b : ClaimBook) : ClaimBook :=
  match e with
  | .call ctx (.config (.insuranceApproveClaim caller claimant amount)) =>
    if (insuranceApproveClaim (exact vault) ctx caller claimant amount).succeeds s then
      { b with approved := ⟨b.approved.length, claimant, amount⟩ :: b.approved }
    else b
  | .call ctx (.insuranceRedeemClaim claimant) =>
    match insuranceRedeemClaim (exact vault) ctx claimant s with
    | .ok (amount, _) => { b with paid := ⟨b.current claimant, claimant, amount⟩ :: b.paid }
    | .error _ => b
  | _ => b

/-- Every payment is for a claim as it was approved, and no claim is paid twice. -/
structure ClaimBook.PaidOnce (b : ClaimBook) : Prop where
  distinct : (b.approved.map (·.id)).Nodup
  once : (b.paid.map (·.id)).Nodup
  approved : ∀ x ∈ b.paid, x ∈ b.approved

/-- The stored claim of somebody is the last one approved for them. -/
structure ClaimTracks (st : Store) (b : ClaimBook) : Prop where
  safe : b.PaidOnce
  numbered : ∀ x ∈ b.approved, x.id < b.approved.length
  latest : st.insuranceClaims.Forall (fun claimant claim => ∃ x,
    b.approved.find? (·.claimant = claimant) = some x ∧ x.amount = claim.amount ∧
      (claim.redeemed = false → x.id ∉ b.paid.map (·.id)))

section

variable {a st : Store} {b : ClaimBook}

theorem ClaimTracks.approve {claimant : Address} {amount : Int} {now : Nat} (h : ClaimTracks a b)
    (hcl : st.insuranceClaims =
      a.insuranceClaims.set claimant ⟨claimant, amount, now, false⟩) :
    ClaimTracks st { b with approved := ⟨b.approved.length, claimant, amount⟩ :: b.approved } where
  safe :=
    { distinct := by
        refine nodup_cons.mpr ⟨fun hm => ?_, h.safe.distinct⟩
        obtain ⟨x, hx, heq⟩ := mem_map.mp hm
        exact absurd heq (h.numbered x hx).ne
      once := h.safe.once
      approved := fun x hx => mem_cons_of_mem _ (h.safe.approved x hx) }
  numbered := by
    intro x hx
    rcases mem_cons.mp hx with rfl | hx
    · exact Nat.lt_succ_self _
    · exact (h.numbered x hx).trans (Nat.lt_succ_self _)
  latest := by
    intro c claim hg
    rw [hcl, SortedMap.get_set] at hg
    split_ifs at hg with hc
    · obtain rfl := Option.some.inj hg
      subst hc
      refine ⟨⟨b.approved.length, c, amount⟩, by simp, rfl, fun _ hm => ?_⟩
      -- a number that has not been given out yet has not been paid
      obtain ⟨x, hx, heq⟩ := mem_map.mp hm
      exact absurd heq (h.numbered x (h.safe.approved x hx)).ne
    · obtain ⟨x, hf, hr⟩ := h.latest c claim hg
      refine ⟨x, ?_, hr⟩
      rw [find?_cons_of_neg (by simpa using Ne.symm hc)]
      exact hf

theorem ClaimTracks.redeem {claimant : Address} {claim : InsuranceClaimRecord}
    (h : ClaimTracks a b) (hg : a.insuranceClaims.get claimant = some claim)
    (ho : claim.redeemed = false)
    (hcm : st.insuranceClaims =
      a.insuranceClaims.set claimant { claim with redeemed := true }) :
    ClaimTracks st
      { b with paid := ⟨b.current claimant, claimant, claim.amount⟩ :: b.paid } := by
  obtain ⟨x, hf, ha, hu⟩ := h.latest claimant claim hg
  have hx : x ∈ b.approved := mem_of_find?_eq_some hf
  have hcl : x.claimant = claimant := by simpa using find?_some hf
  have he : (⟨b.current claimant, claimant, claim.amount⟩ : ClaimEntry) = x := by
    cases x
    simp only [ClaimBook.current, hf, Option.elim_some] at hcl ha ⊢
    rw [hcl, ha]
  rw [he]
  refine ⟨⟨h.safe.distinct, nodup_cons.mpr ⟨hu ho, h.safe.once⟩, ?_⟩, h.numbered, ?_⟩
  · intro y hy
    rcases mem_cons.mp hy with rfl | hy
    · exact hx
    · exact h.safe.approved y hy
  · intro c claim' hg'
    rw [hcm, SortedMap.get_set] at hg'
    split_ifs at hg' with hc
    · obtain rfl := Option.some.inj hg'
      subst hc
      exact ⟨x, hf, ha, fun hfl => absurd hfl Bool.false_ne_true.symm⟩
    · obtain ⟨y, hf', ha', hu'⟩ := h.latest c claim' hg'
      refine ⟨y, hf', ha', fun ho' hm => ?_⟩
      rcases mem_cons.mp hm with heq | hm
      · -- the claims of two claimants have different numbers
        have hy : y ∈ b.approved := mem_of_find?_eq_some hf'
        have hs : y = x := inj_on_of_nodup_map h.safe.distinct hy hx heq
        have hcl' : y.claimant = c := by simpa using find?_some hf'
        exact hc (by rw [← hcl', hs, hcl])
      · exact hu' ho' hm

end

theorem claimNote_other {b : ClaimBook} (ha : ∀ caller claimant amount,
      op ≠ .config (.insuranceApproveClaim caller claimant amount))
    (hr : ∀ claimant, op ≠ .insuranceRedeemClaim claimant) :
    claimNote self s (.call ctx op) b = b := by
  unfold claimNote
  split
  · next heq => exact absurd (Move.call.inj heq).2 (ha _ _ _)
  · next heq => exact absurd (Move.call.inj heq).2 (hr _)
  · rfl

theorem claimNote_error {b : ClaimBook} {e : Fault Error}
    (h : op.exec (exact self) ctx s = .error e) : claimNote self s (.call ctx op) b = b := by
  unfold claimNote
  split
  · next heq =>
    obtain ⟨rfl, rfl⟩ := Move.call.inj heq
    exact if_neg (fun hok => absurd (hok.symm.trans (fails_of_error h)) Bool.false_ne_true.symm)
  · next heq =>
    obtain ⟨rfl, rfl⟩ := Move.call.inj heq
    simp only [void_error.mp h]
  · rfl

theorem claims_step (p : Sys World × ClaimBook) (e : Move)
    (hp : p.1.store.Insured ∧ ClaimTracks p.1.store p.2) :
    (watch (step self) (claimNote self) p e).1.store.Insured ∧
      ClaimTracks (watch (step self) (claimNote self) p e).1.store
        (watch (step self) (claimNote self) p e).2 := by
  obtain ⟨s, b⟩ := p
  obtain ⟨hs, hb⟩ := hp
  refine ⟨insured_step s e hs, ?_⟩
  cases e with
  | wallet source target amount => exact hb
  | call ctx op =>
    rcases after_cases (op.exec (exact self) ctx) s with ⟨u, t, hok, ht⟩ | ⟨⟨_, he⟩, ht⟩
    · simp only [watch, step, ht]
      cases exec_fundStep hs.sound hok with
      | @approve caller claimant amount _ _ _ hc _ =>
        have hd : (insuranceApproveClaim (exact self) ctx caller claimant amount).succeeds s =
            true := succeeds_of_ok hok
        simp only [claimNote, hd, if_true]
        exact hb.approve hc
      | @redeem claimant claim hg ho _ _ hc _ =>
        obtain ⟨paid, hpd⟩ := of_void hok
        obtain ⟨-, -, claim', hg', -, rfl, -⟩ := insuranceRedeemClaim_ok hpd
        obtain rfl : claim' = claim := Option.some.inj (hg'.symm.trans hg)
        simp only [claimNote, hpd]
        exact hb.redeem hg ho hc
      | grow ha hr hc _ _ =>
        rw [claimNote_other ha hr]
        exact { hb with latest := hc ▸ hb.latest }
    · simp only [watch, step, ht, claimNote_error he]
      exact hb

/-- The fund is never negative, every claim is paid once at most, claims that the fund covers can
be redeemed in any order, and it covers them throughout a run exactly when every approval in it
stays within what the open claims leave. -/
theorem claims_payable_iff (self : Address) (tokens : Ledger Address) (es : List Move) :
    AllStates (watch (step self) (claimNote self))
      (fun p => 0 ≤ p.1.store.insuranceFundBalance ∧ p.2.PaidOnce ∧
        (ClaimsBacked p.1 → RedeemableInAnyOrder self p.1)) (.deployed tokens, ⟨[], []⟩) es ∧
    (AllStates (step self) ClaimsBacked (.deployed tokens) es ↔
      AllSteps (step self) (ApprovalFits self) (.deployed tokens) es) := by
  constructor
  · have ht : ClaimTracks Store.deployed ⟨[], []⟩ :=
      ⟨⟨nodup_nil, nodup_nil, fun _ hx => hx⟩, fun _ hx => absurd hx not_mem_nil,
        .empty⟩
    have ha : AllStates (watch (step self) (claimNote self))
        (fun p => p.1.store.Insured ∧ ClaimTracks p.1.store p.2) (.deployed tokens, ⟨[], []⟩) es :=
      invariant_allStates (fun p e hp _ => claims_step p e hp) ⟨insured_deployed, ht⟩
        (AllSteps.trivial es)
    exact ha.mono (fun p hp => ⟨hp.1.claims.fund, hp.2.safe, redeemable hp.1⟩)
  · exact allStates_iff_allSteps (J := fun s => s.store.Insured) insured_step backed_step_iff
      insured_deployed (le_refl _)

/-- Two claims are approved, each within the limit, and together they exceed the fund. -/
def overcommitted : List Move :=
  [.call ⟨10, 1, [1]⟩ (.setup 1 9), .wallet 2 1 1000,
    .call ⟨20, 2, [1]⟩ (.insuranceFund 1 1000),
    .call ⟨30, 3, [1]⟩ (.config (.setInsuranceMaxClaimBps 1 10000)),
    .call ⟨40, 4, [1]⟩ (.config (.insuranceApproveClaim 1 5 600)),
    .call ⟨50, 5, [1]⟩ (.config (.insuranceApproveClaim 1 6 600))]

/-- Whoever of the two redeems second is turned away. -/
theorem overcommitted_unpaid :
    ¬ClaimsBacked (runFrom (step 0) (.deployed purse) overcommitted) ∧
    (Move.call ⟨70, 7, [6]⟩ (.insuranceRedeemClaim 6)).succeeds 0 (runFrom (step 0)
      (.deployed purse) (overcommitted ++ [.call ⟨60, 6, [5]⟩ (.insuranceRedeemClaim 5)])) =
        false := by
  decide +kernel

end Stow.Vault
