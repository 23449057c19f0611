import Stow.Adapter.DepositExact
import Stow.Adapter.Outage

/-! A batch of deposits against the same deposits one after another, in the honest world. -/
namespace Stow.Adapter

open Stow.Lib Stow.Lib.Contract List

/-- Single deposits, in order. -/
def depositAll {W : Type} (H : Host W) (ctx : Ctx) : List (Address × Int) → Action W (List Int)
  | [] => pure []
  | (source, amount) :: rest => do
    let shares ← deposit H ctx source amount
    let more ← depositAll H ctx rest
    pure (shares :: more)

/-- The same shares for everyone, and the same money in the adapter and in the strategy. -/
def SameHoldings (self : Address) (t t' : Sys World) : Prop :=
  t.store.positions = t'.store.positions ∧ t.store.totalShares = t'.store.totalShares ∧
    t.idle self = t'.idle self ∧ t.live self = t'.live self

/-- The batch and the single deposits succeed together, mint the same and lead to the same. -/
def BatchMatches (self : Address) (ctx : Ctx) (items : List (Address × Int)) (s : Sys World) :
    Prop :=
  let batch := batchDeposit (honest self) ctx (items.map (·.1)) (items.map (·.2))
  let singles := depositAll (honest self) ctx items
  ∀ shares, (∀ t, batch s = .ok (shares, t) →
      ∃ t', singles s = .ok (shares, t') ∧ SameHoldings self t t') ∧
    (∀ t', singles s = .ok (shares, t') →
      ∃ t, batch s = .ok (shares, t) ∧ SameHoldings self t t')

/-- The shares can be added to the supply and to the positions. -/
def Mintable (now : Nat) : List (Address × Int) → Int → SortedMap Address Position → Prop
  | [], _, _ => True
  | (owner, shares) :: rest, supply, positions =>
    FitsI128 (supply + shares) ∧ FitsI128 ((positionOf positions owner now).shares + shares) ∧
      Mintable now rest (supply + shares)
        (writeShares positions owner now ((positionOf positions owner now).shares + shares))

/-- The wallets cover the amounts, one after another. -/
def Funded : List (Address × Int) → Ledger Address → Prop
  | [], _ => True
  | (source, amount) :: rest, l =>
    amount ≤ l source ∧ Funded rest (l.set source (l source - amount.toNat))

/-- The active strategy takes a further amount. -/
def Sys.Takes (self : Address) (s : Sys World) (amount : Int) : Prop :=
  ∀ info, s.store.activeInfo = some info → info.address ≠ self ∧ (0 < info.depositCap →
    FitsI128 (s.world.claimOn info.address + amount) ∧
      s.world.claimOn info.address + amount ≤ info.depositCap)

/-- What both ways of depositing check besides the price. -/
structure Admits (adapter : Address) (ctx : Ctx) (items : List (Address × Int)) (s : Sys World) :
    Prop where
  running : s.store.paused = false
  token : s.store.token ≠ none
  signed : ∀ i ∈ items, i.1 ∈ ctx.auths ∧ i.1 ≠ adapter
  positive : ∀ i ∈ items, 0 < i.2
  funded : Funded items s.world.tokens
  room : s.Takes adapter (items.map (·.2)).sum

variable {self : Address} {ctx : Ctx} {s t : Sys World} {items : List (Address × Int)}
  {source : Address} {amount shares : Int}

/-! ### Deposits one after another -/

theorem funded_congr {l l' : Ledger Address} (hsr : ∀ i ∈ items, i.1 ≠ self)
    (hs : ∀ a, a ≠ self → l a = l' a) : Funded items l ↔ Funded items l' := by
  induction items generalizing l l' with
  | nil => exact Iff.rfl
  | cons i rest ih =>
    obtain ⟨source, amount⟩ := i
    have hsc : l source = l' source := hs source (hsr _ mem_cons_self)
    simp only [Funded, hsc]
    refine and_congr_right (fun _ => ih (fun i hi => hsr i (mem_cons_of_mem _ hi)) ?_)
    intro a ha
    by_cases heq : a = source
    · rw [heq, Ledger.set_self, Ledger.set_self]
    · rw [Ledger.set_other _ _ heq, Ledger.set_other _ _ heq, hs a ha]

variable {s₁ : Sys World}

theorem Sys.Takes.mono {more : Int} (h : s.Takes self (amount + more)) (hp : 0 < amount)
    (hm : 0 ≤ more) : s.Takes self amount := by
  intro info hi
  obtain ⟨hne, hc⟩ := h info hi
  refine ⟨hne, fun hs => ?_⟩
  obtain ⟨hf, hle⟩ := hc hs
  exact ⟨hf.of_le (by omega) (by omega), by omega⟩

/-- The room for more is the room that is left after the first. -/
theorem Deposited.takes (h : Deposited self ctx source amount shares s s₁)
    (ht : s.Takes self amount) (more : Int) :
    s.Takes self (amount + more) ↔ s₁.Takes self more := by
  have ha : s₁.store.activeInfo = s.store.activeInfo := by
    rw [h.store]
    rfl
  have hc : ∀ info, s.store.activeInfo = some info → info.address ≠ self →
      (s₁.world.claimOn info.address : Int) = s.world.claimOn info.address + amount := by
    intro info hi hne
    have had : s.store.activeAddress = some info.address := by
      simp [Store.activeAddress, hi]
    have haddress₁ : s₁.store.activeAddress = some info.address := by
      simp [Store.activeAddress, ha, hi]
    have hl := h.live
    rwa [Sys.live_of_active had hne, Sys.live_of_active haddress₁ hne, Store.lentOut,
      hi] at hl
  unfold Sys.Takes
  rw [ha]
  refine forall_congr' (fun info => imp_congr_right (fun hi => ?_))
  have hne := (ht info hi).1
  rw [hc info hi hne, add_assoc]

theorem sum_amounts_nonneg (h : ∀ i ∈ items, 0 < i.2) : 0 ≤ (items.map (·.2)).sum := by
  refine sum_nonneg (fun x hx => ?_)
  obtain ⟨i, hi, rfl⟩ := mem_map.mp hx
  exact (h i hi).le

theorem Admits.head {rest : List (Address × Int)}
    (h : Admits self ctx ((source, amount) :: rest) s) : Admits self ctx [(source, amount)] s := by
  obtain ⟨hs, -⟩ := forall_mem_cons.mp h.signed
  obtain ⟨hps, hp⟩ := forall_mem_cons.mp h.positive
  have hr := h.room
  exact ⟨h.running, h.token, by simpa using hs, by simpa using hps, ⟨h.funded.1, trivial⟩,
    by simpa using hr.mono hps (sum_amounts_nonneg hp)⟩

/-- What is checked of a list is checked of its head now and of its tail after the head. -/
theorem Deposited.admits {rest : List (Address × Int)}
    (h : Deposited self ctx source amount shares s s₁)
    (hh : Admits self ctx [(source, amount)] s) :
    Admits self ctx ((source, amount) :: rest) s ↔ Admits self ctx rest s₁ := by
  have hrn : s₁.store.paused = s.store.paused := by rw [h.store]
  have htk : s₁.store.token = s.store.token := by rw [h.store]
  have ht : s.Takes self amount := by simpa using hh.room
  constructor
  · intro ha
    obtain ⟨-, hs⟩ := forall_mem_cons.mp ha.signed
    have hr := ha.room
    rw [map_cons, sum_cons, h.takes ht] at hr
    refine ⟨hrn.trans ha.running, htk ▸ ha.token, hs,
      (forall_mem_cons.mp ha.positive).2, ?_, hr⟩
    exact (funded_congr (fun i hi => (hs i hi).2) h.wallets).mpr ha.funded.2
  · intro hrs
    refine ⟨hh.running, hh.token, ?_, ?_, ⟨hh.funded.1, ?_⟩, ?_⟩
    · exact forall_mem_cons.mpr ⟨hh.signed _ mem_cons_self, hrs.signed⟩
    · exact forall_mem_cons.mpr ⟨hh.positive _ mem_cons_self, hrs.positive⟩
    · exact (funded_congr (fun i hi => (hrs.signed i hi).2) h.wallets).mp hrs.funded
    · rw [map_cons, sum_cons, h.takes ht]
      exact hrs.room

/-- A strategy takes an amount when it can be called and the cap, if any, leaves room. -/
theorem takes_iff :
    s.Takes self amount ↔ (∀ info, s.store.activeInfo = some info → info.address ≠ self) ∧
      ∀ info, s.store.activeInfo = some info → 0 < info.depositCap → info.address ≠ self ∧
        FitsI128 (s.world.claimOn info.address + amount) ∧
        s.world.claimOn info.address + amount ≤ info.depositCap := by
  constructor
  · intro h
    exact ⟨fun info hi => (h info hi).1,
      fun info hi hs => ⟨(h info hi).1, (h info hi).2 hs⟩⟩
  · rintro ⟨ha, hr⟩ info hi
    exact ⟨ha info hi, fun hs => (hr info hi hs).2⟩

theorem deposit_single_iff :
    (∃ t, deposit (honest self) ctx source amount s = .ok (shares, t)) ↔
      Admits self ctx [(source, amount)] s ∧
        Quote s.store.totalShares (s.gross self) s.store.liabilities amount shares ∧
        FitsI128 (s.store.totalShares + shares) ∧
        FitsI128 ((positionOf s.store.positions source ctx.now).shares + shares) := by
  have hsm : ([(source, amount)].map (·.2)).sum = amount := by simp
  constructor
  · rintro ⟨t, h⟩
    obtain ⟨hs, hrn, hps, hq, hc, ht, hp, s₁, s₂, hin, hf, -⟩ :=
      deposit_iff.mp h
    obtain ⟨-, htk, hle, -⟩ := (transferIn_iff hs.2).mp hin
    have hr : s.Takes self amount := takes_iff.mpr ⟨forward_address hf, hc⟩
    exact ⟨⟨hrn, htk, by simpa using hs, by simpa using hps, ⟨hle, trivial⟩,
      hsm.symm ▸ hr⟩, hq, ht, hp⟩
  · rintro ⟨ha, hq, ht, hp⟩
    have hs : source ∈ ctx.auths ∧ source ≠ self := ha.signed _ mem_cons_self
    have hps : 0 < amount := ha.positive _ mem_cons_self
    obtain ⟨had, hc⟩ := takes_iff.mp (hsm ▸ ha.room)
    obtain ⟨s₁, hin, hstore₁, hh⟩ : ∃ s₁, transferIn (honest self) source amount s =
        .ok ((), s₁) ∧ s₁.store = s.store ∧ amount ≤ s₁.world.tokens self := by
      refine ⟨_, (transferIn_iff hs.2).mpr ⟨hps, ha.token, ha.funded.1, rfl⟩, rfl,
        ?_⟩
      simp only [Ledger.set_self]
      omega
    obtain ⟨s₂, hf⟩ := forward_total hps (hstore₁ ▸ ha.token) hh had
    exact ⟨_, deposit_iff.mpr ⟨hs, ha.running, hps, hq, hc, ht, hp,
      s₁, s₂, hin, hf, rfl⟩⟩

/-- What deposits of a list of amounts for these shares leave. -/
structure Received (adapter : Address) (ctx : Ctx) (items : List (Address × Int))
    (shares : List Int) (s t : Sys World) : Prop where
  store : t.store = { s.store with
    positions := mintAll ctx.now ((items.map (·.1)).zip shares) s.store.positions
    totalShares := s.store.totalShares + shares.sum }
  idle : t.idle adapter = s.idle adapter +
    ((items.map (·.2)).sum - s.store.lentOut (items.map (·.2)).sum)
  live : t.live adapter = s.live adapter + s.store.lentOut (items.map (·.2)).sum

theorem Received.same {shares : List Int} {t' : Sys World} (h : Received self ctx items shares s t)
    (h' : Received self ctx items shares s t') : SameHoldings self t t' :=
  ⟨by rw [h.store, h'.store], by rw [h.store, h'.store], by rw [h.idle, h'.idle],
    by rw [h.live, h'.live]⟩

theorem lentOut_add (st : Store) (a b : Int) :
    st.lentOut (a + b) = st.lentOut a + st.lentOut b := by
  unfold Store.lentOut
  cases st.activeInfo <;> rfl

variable {xs : List Int}

theorem depositAll_cons_ok {rest : List (Address × Int)} :
    depositAll (honest self) ctx ((source, amount) :: rest) s = .ok (xs, t) ↔
      ∃ shares s₁ more, deposit (honest self) ctx source amount s = .ok (shares, s₁) ∧
        depositAll (honest self) ctx rest s₁ = .ok (more, t) ∧ xs = shares :: more := by
  simp only [depositAll, Call.bind_ok, Call.pure_ok]
  constructor
  · rintro ⟨shares, s₁, hd, more, _, hm, rfl, rfl⟩
    exact ⟨shares, s₁, more, hd, hm, rfl⟩
  · rintro ⟨shares, s₁, more, hd, hm, rfl⟩
    exact ⟨shares, s₁, hd, more, t, hm, rfl, rfl⟩

theorem depositAll_received (h : depositAll (honest self) ctx items s = .ok (xs, t)) :
    Received self ctx items xs s t := by
  induction items generalizing s xs with
  | nil =>
    obtain ⟨rfl, rfl⟩ := Call.pure_ok.mp h
    have hn : s.store.lentOut 0 = 0 := by
      unfold Store.lentOut
      cases s.store.activeInfo <;> rfl
    exact ⟨by simp [mintAll], by simp [hn], by simp [hn]⟩
  | cons i rest ih =>
    obtain ⟨shares, s₁, more, hd, hm, rfl⟩ := depositAll_cons_ok.mp h
    have hf := deposited hd
    have hr := ih hm
    have hl : ∀ x, s₁.store.lentOut x = s.store.lentOut x := fun x => by rw [hf.store]; rfl
    refine ⟨?_, ?_, ?_⟩
    · rw [hr.store, hf.store]
      simp only [map_cons, zip_cons_cons, mintAll, sum_cons, add_assoc]
    · rw [hr.idle, hf.idle, hl, map_cons, sum_cons, lentOut_add]
      ring
    · rw [hr.live, hf.live, hl, map_cons, sum_cons, lentOut_add]
      ring

/-- Single deposits all succeed when the list is admitted and the moving prices can be minted. -/
theorem depositAll_iff (hr : items ≠ [] ∨ Admits self ctx [] s) :
    (∃ t, depositAll (honest self) ctx items s = .ok (xs, t)) ↔
      Admits self ctx items s ∧
        MovingRate s.store.totalShares (s.gross self) s.store.liabilities (items.map (·.2)) xs ∧
        Mintable ctx.now ((items.map (·.1)).zip xs) s.store.totalShares s.store.positions := by
  induction items generalizing s xs with
  | nil =>
    have ha := hr.resolve_left (fun hne => hne rfl)
    cases xs with
    | nil => simp [depositAll, ha, MovingRate, Mintable]
    | cons x xs => simp [depositAll, MovingRate]
  | cons i rest ih =>
    constructor
    · rintro ⟨t, h⟩
      obtain ⟨shares, s₁, more, hdp, hmr, rfl⟩ := depositAll_cons_ok.mp h
      have hd := deposited hdp
      obtain ⟨hh, hq, ht, hp⟩ := deposit_single_iff.mp ⟨s₁, hdp⟩
      obtain ⟨hrs, hm, hmn⟩ := (ih (.inr ((hd.admits hh).mp hh))).mp ⟨t, hmr⟩
      rw [hd.gross] at hm
      rw [hd.store] at hm hmn
      exact ⟨(hd.admits hh).mpr hrs, ⟨hq, hm⟩, ht, hp, hmn⟩
    · rintro ⟨ha, hm, hmn⟩
      cases xs with
      | nil => exact hm.elim
      | cons shares more =>
        obtain ⟨hq, hm⟩ := hm
        obtain ⟨ht, hp, hmn⟩ := hmn
        have hh := ha.head
        obtain ⟨s₁, hdp⟩ := deposit_single_iff.mpr ⟨hh, hq, ht, hp⟩
        have hd := deposited hdp
        have hrs := (hd.admits hh).mp ha
        have hmoving₁ : MovingRate s₁.store.totalShares (s₁.gross self) s₁.store.liabilities
            (rest.map (·.2)) more := by
          rw [hd.gross, hd.store]
          exact hm
        have hmint₁ : Mintable ctx.now ((rest.map (·.1)).zip more) s₁.store.totalShares
            s₁.store.positions := by
          rw [hd.store]
          exact hmn
        obtain ⟨t, hmr⟩ := (ih (.inr ((hd.admits hh).mp hh))).mpr ⟨hrs, hmoving₁, hmint₁⟩
        exact ⟨t, depositAll_cons_ok.mpr ⟨shares, s₁, more, hdp, hmr, rfl⟩⟩

/-! ### The batch -/

theorem priceBatch_iff {amounts : List Int} {total total' : Int} :
    priceBatch (honest self) amounts total s = .ok ((xs, total'), t) ↔
      (∀ a ∈ amounts, 0 < a) ∧
        OneRate s.store.totalShares (s.gross self) s.store.liabilities total amounts xs ∧
        total' = total + amounts.sum ∧ s = t := by
  induction amounts generalizing total total' xs with
  | nil =>
    simp only [priceBatch, Call.pure_ok, Prod.mk.injEq]
    cases xs with
    | nil => simp [OneRate, eq_comm]
    | cons x xs => simp [OneRate]
  | cons amount rest ih =>
    rw [priceBatch_cons_ok]
    constructor
    · rintro ⟨x, s₁, ⟨more, _⟩, hps, hf, hne, hc, hm, hpr⟩
      obtain ⟨rfl, rfl⟩ := Prod.mk.inj hpr
      obtain ⟨hq, rfl⟩ := (convertToShares_iff hps hne).mp hc
      obtain ⟨hp, hr, rfl, rfl⟩ := ih.mp hm
      exact ⟨forall_mem_cons.mpr ⟨hps, hp⟩, ⟨hq, hf, hr⟩, by rw [sum_cons, add_assoc], rfl⟩
    · rintro ⟨hp, hr, rfl, rfl⟩
      obtain ⟨hps, hp⟩ := forall_mem_cons.mp hp
      cases xs with
      | nil => exact hr.elim
      | cons x more =>
        obtain ⟨hq, hf, hr⟩ := hr
        exact ⟨x, s, _, hps, hf, hq.1, (convertToShares_iff hps hq.1).mpr ⟨hq, rfl⟩,
          ih.mpr ⟨hp, hr, rfl, rfl⟩, by rw [sum_cons, add_assoc]⟩

/-- The execution pass goes through when the wallets cover the amounts and the shares fit. -/
theorem takesAll_iff {supply : Int} (hl : xs.length = items.length)
    (hs : ∀ i ∈ items, i.1 ≠ self) (hp : ∀ i ∈ items, 0 < i.2)
    (htk : s.store.token ≠ none) :
    (∃ t, TakesAll (honest self) ctx ((items.map (·.1)).zip ((items.map (·.2)).zip xs)) supply
        s t) ↔
      Funded items s.world.tokens ∧
        Mintable ctx.now ((items.map (·.1)).zip xs) supply s.store.positions := by
  induction items generalizing s xs supply with
  | nil =>
    simp [TakesAll, Funded, Mintable]
  | cons i rest ih =>
    obtain ⟨source, amount⟩ := i
    obtain ⟨hne, hs⟩ := forall_mem_cons.mp hs
    obtain ⟨hpo, hp⟩ := forall_mem_cons.mp hp
    cases xs with
    | nil => exact absurd hl.symm (Nat.succ_ne_zero _)
    | cons x more =>
      have hl : more.length = rest.length := Nat.succ.inj hl
      have hw : ∀ a, a ≠ self →
          ((s.world.tokens.set source (s.world.tokens source - amount.toNat)).set self
            (s.world.tokens self + amount.toNat)) a =
          (s.world.tokens.set source (s.world.tokens source - amount.toNat)) a :=
        fun a ha => Ledger.set_other _ _ ha
      -- the rest, from the state that the first transfer leaves
      have hr := fun log => (@ih ⟨s.store.setShares source ctx.now
        ((s.store.positionOf source ctx.now).shares + x), log,
        ⟨(s.world.tokens.set source (s.world.tokens source - amount.toNat)).set self
          (s.world.tokens self + amount.toNat), s.world.claims⟩⟩ more (supply + x)
        hl hs hp htk).trans
        (and_congr_left' (funded_congr hs hw))
      constructor
      · rintro ⟨t, ht, hps, s₁, hin, hmr⟩
        obtain ⟨-, -, hle, rfl⟩ := (transferIn_iff hne).mp hin
        obtain ⟨hf, hm⟩ := (hr _).mp ⟨t, hmr⟩
        exact ⟨⟨hle, hf⟩, ht, hps, hm⟩
      · rintro ⟨⟨hle, hf⟩, ht, hps, hm⟩
        obtain ⟨t, hmr⟩ := (hr _).mpr ⟨hf, hm⟩
        exact ⟨t, ht, hps, _, (transferIn_iff hne).mpr ⟨hpo, htk, hle, rfl⟩, hmr⟩

theorem zip_map_shares {sources : List Address} {amounts : List Int}
    (hl : xs.length = amounts.length) :
    (sources.zip (amounts.zip xs)).map (fun i => (i.1, i.2.2)) = sources.zip xs :=
  zip_map_right.symm.trans (congrArg sources.zip (map_snd_zip hl.le))

/-- What the execution pass leaves, before the strategy gets its part. -/
theorem mintBatch_leaves {supply supply' : Int} (hl : xs.length = items.length)
    (hsr : ∀ i ∈ items, i.1 ≠ self)
    (h : mintBatch (honest self) ctx ((items.map (·.1)).zip ((items.map (·.2)).zip xs)) supply s =
      .ok (supply', t)) :
    supply' = supply + xs.sum ∧ t.world.claims = s.world.claims ∧
      t.idle self = s.idle self + (items.map (·.2)).sum ∧
      t.store = { s.store with
        positions := mintAll ctx.now ((items.map (·.1)).zip xs) s.store.positions } := by
  have hsh : ((items.map (·.1)).zip ((items.map (·.2)).zip xs)).map (fun i => i.2.2) = xs := by
    rw [show (fun i : Address × Int × Int => i.2.2) = Prod.snd ∘ Prod.snd from rfl,
      ← map_map, map_snd_zip (by simp [hl]), map_snd_zip (by simp [hl])]
  have ha : ((items.map (·.1)).zip ((items.map (·.2)).zip xs)).map (fun i => i.2.1) =
      items.map (·.2) := by
    rw [show (fun i : Address × Int × Int => i.2.1) = Prod.fst ∘ Prod.snd from rfl,
      ← map_map, map_snd_zip (by simp [hl]), map_fst_zip (by simp [hl])]
  have hsc : ∀ i ∈ (items.map (·.1)).zip ((items.map (·.2)).zip xs), i.1 ≠ self := by
    intro i hi
    obtain ⟨j, hj, heq⟩ := mem_map.mp (of_mem_zip hi).1
    exact heq ▸ hsr j hj
  obtain ⟨hst, hs⟩ := mintBatch_store h
  obtain ⟨hc, hid⟩ := mintBatch_honest hsc h
  rw [hsh] at hs
  rw [ha] at hid
  rw [zip_map_shares (by simp [hl])] at hst
  exact ⟨hs, hc, hid, hst⟩

/-- A batch in the honest world, pass by pass. -/
theorem batchDeposit_passes (hs : items.length ≤ maxBatchSize) :
    batchDeposit (honest self) ctx (items.map (·.1)) (items.map (·.2)) s = .ok (xs, t) ↔
      s.store.paused = false ∧ items ≠ [] ∧ (∀ i ∈ items, i.1 ∈ ctx.auths ∧ i.1 ≠ self) ∧
      (∀ i ∈ items, 0 < i.2) ∧
      OneRate s.store.totalShares (s.gross self) s.store.liabilities 0 (items.map (·.2)) xs ∧
      (∀ info, s.store.activeInfo = some info → 0 < info.depositCap → info.address ≠ self ∧
        FitsI128 (s.world.claimOn info.address + (items.map (·.2)).sum) ∧
        s.world.claimOn info.address + (items.map (·.2)).sum ≤ info.depositCap) ∧
      ∃ newTotal s₁ s₂,
        mintBatch (honest self) ctx ((items.map (·.1)).zip ((items.map (·.2)).zip xs))
          s.store.totalShares s = .ok (newTotal, s₁) ∧
        forward (honest self) s.store.activeInfo (items.map (·.2)).sum s₁ = .ok ((), s₂) ∧
        t = ⟨s₁.store.setTotalShares newTotal, s₁.log, s₂.world⟩ := by
  simp only [batchDeposit_ok, ne_eq, map_eq_nil_iff, length_map, and_self]
  constructor
  · rintro ⟨hr, hi, -, -, hsg, _, _, s₁, s₂, deployed, total, newTotal, hcp, hpr,
      hc, hm, hf, rfl⟩
    obtain rfl := cappedBalance_honest hcp
    obtain ⟨hp, hrt, rfl, rfl⟩ := priceBatch_iff.mp hpr
    rw [zero_add] at hc hf
    exact ⟨hr, hi, forall_mem_map.mp hsg, forall_mem_map.mp hp,
      hrt, cap_iff.mp ⟨deployed, hcp, hc⟩, newTotal, s₁, s₂, hm, hf, rfl⟩
  · rintro ⟨hr, hi, hsg, hp, hrt, hrm, newTotal, s₁, s₂, hm, hf,
      rfl⟩
    obtain ⟨deployed, hcp, hc⟩ := cap_iff.mpr hrm
    exact ⟨hr, hi, hs, trivial, forall_mem_map.mpr hsg, s, s, s₁, s₂, deployed,
      _, newTotal, hcp, priceBatch_iff.mpr ⟨forall_mem_map.mpr hp, hrt,
        (zero_add _).symm, rfl⟩, hc, hm, hf, rfl⟩

/-- The batch goes through when the list is admitted and the prices at one rate can be minted. -/
theorem batchDeposit_iff (hs : items.length ≤ maxBatchSize) :
    (∃ t, batchDeposit (honest self) ctx (items.map (·.1)) (items.map (·.2)) s = .ok (xs, t)) ↔
      items ≠ [] ∧ Admits self ctx items s ∧
        OneRate s.store.totalShares (s.gross self) s.store.liabilities 0 (items.map (·.2)) xs ∧
        Mintable ctx.now ((items.map (·.1)).zip xs) s.store.totalShares s.store.positions := by
  constructor
  · rintro ⟨t, h⟩
    have htk := (batchDeposit_writes h).1
    obtain ⟨hrn, hit, hsg, hp, hrt, hr, newTotal, s₁, s₂, hm, hf,
      -⟩ := (batchDeposit_passes hs).mp h
    obtain ⟨hfn, hmn⟩ := (takesAll_iff (hrt.length.trans (length_map _))
      (fun i hi => (hsg i hi).2) hp htk).mp ⟨s₁, mintBatch_iff.mp ⟨newTotal, hm⟩⟩
    exact ⟨hit, ⟨hrn, htk, hsg, hp, hfn,
      takes_iff.mpr ⟨forward_address hf, hr⟩⟩, hrt, hmn⟩
  · rintro ⟨hit, ha, hrt, hmn⟩
    have hsr : ∀ i ∈ items, i.1 ≠ self := fun i hi => (ha.signed i hi).2
    have hl : xs.length = items.length := hrt.length.trans (length_map _)
    obtain ⟨had, hr⟩ := takes_iff.mp ha.room
    obtain ⟨s₁, ht⟩ := (takesAll_iff hl hsr ha.positive ha.token).mpr
      ⟨ha.funded, hmn⟩
    obtain ⟨newTotal, hm⟩ := mintBatch_iff.mpr ht
    obtain ⟨-, -, hid, hstore₁⟩ := mintBatch_leaves hl hsr hm
    have htt : 0 < (items.map (·.2)).sum :=
      sum_pos _ (forall_mem_map.mpr ha.positive) (by simpa using hit)
    have hh : (items.map (·.2)).sum ≤ s₁.world.tokens self := by
      simp only [Sys.idle, hstore₁, if_neg ha.token] at hid
      omega
    obtain ⟨s₂, hf⟩ := forward_total htt (by rw [hstore₁]; exact ha.token) hh
      had
    exact ⟨_, (batchDeposit_passes hs).mpr ⟨ha.running, hit, ha.signed,
      ha.positive, hrt, hr, newTotal, s₁, s₂, hm, hf, rfl⟩⟩

theorem batchDeposit_received
    (h : batchDeposit (honest self) ctx (items.map (·.1)) (items.map (·.2)) s = .ok (xs, t)) :
    Received self ctx items xs s t := by
  obtain ⟨-, -, -, -, hsl, _, _, s₁, s₂, deployed, total, newTotal, hcp, hp, -, hm, hf,
    ht⟩ := batchDeposit_ok.mp h
  obtain rfl := cappedBalance_honest hcp
  obtain ⟨-, hr, htt, rfl⟩ := priceBatch_iff.mp hp
  rw [zero_add] at htt
  have hln : xs.length = items.length := hr.length.trans (length_map _)
  have hsr : ∀ i ∈ items, i.1 ≠ self := fun i hi => (hsl i.1 (mem_map_of_mem hi)).2
  obtain ⟨hsp, hc, hid, hstore₁⟩ := mintBatch_leaves hln hsr hm
  have ha : s₁.store.activeInfo = s.store.activeInfo := by
    rw [hstore₁]
    rfl
  have hl : s₁.store.lentOut total = s.store.lentOut (items.map (·.2)).sum := by
    rw [htt, Store.lentOut, Store.lentOut, ha]
  rw [← ha] at hf
  obtain ⟨hstore₂, hidle₂, hlive₂, -⟩ := forward_honest hf
  obtain ⟨hlive₁, -⟩ := Sys.live_congr (s := s) self (by rw [hstore₁]; rfl) hc
  obtain ⟨hs, hs', -⟩ := Sys.holdings_congr (s := s₂) (t := t)
    (by rw [ht, hstore₂]; rfl) (by rw [ht, hstore₂]; rfl) (by rw [ht]) self
  refine ⟨by rw [ht, hstore₁, hsp]; rfl, ?_, ?_⟩
  · rw [hs, hidle₂, hid, hl, add_sub_assoc]
  · rw [hs', hlive₂, hlive₁, hl]

/-! ### When the two agree -/

/-- The shares at one rate are the shares at the moving rate, wherever they could be minted. -/
def SteadyPrices (self : Address) (ctx : Ctx) (items : List (Address × Int)) (s : Sys World) :
    Prop :=
  ∀ xs, Mintable ctx.now ((items.map (·.1)).zip xs) s.store.totalShares s.store.positions →
    (OneRate s.store.totalShares (s.gross self) s.store.liabilities 0 (items.map (·.2)) xs ↔
      MovingRate s.store.totalShares (s.gross self) s.store.liabilities (items.map (·.2)) xs)

theorem matches_of_steady (hs : items.length ≤ maxBatchSize) (hi : items ≠ [])
    (hst : Admits self ctx items s → SteadyPrices self ctx items s) :
    BatchMatches self ctx items s := by
  intro xs
  constructor
  · intro t h
    obtain ⟨-, ha, hr, hm⟩ := (batchDeposit_iff hs).mp ⟨t, h⟩
    obtain ⟨t', h'⟩ := (depositAll_iff (.inl hi)).mpr
      ⟨ha, (hst ha xs hm).mp hr, hm⟩
    exact ⟨t', h', (batchDeposit_received h).same (depositAll_received h')⟩
  · intro t' h'
    obtain ⟨ha, hr, hm⟩ := (depositAll_iff (.inl hi)).mp ⟨t', h'⟩
    obtain ⟨t, h⟩ := (batchDeposit_iff hs).mpr
      ⟨hi, ha, (hst ha xs hm).mpr hr, hm⟩
    exact ⟨t, h, (batchDeposit_received h).same (depositAll_received h')⟩

/-- For every state and list, a batch and the single deposits agree exactly when the list is not
empty and, if it passes what both check, the prices do not move with the deposits. -/
theorem batch_matches_iff (self : Address) (ctx : Ctx) (items : List (Address × Int))
    (s : Sys World) (hsmall : items.length ≤ maxBatchSize) :
    BatchMatches self ctx items s ↔
      items ≠ [] ∧ (Admits self ctx items s → SteadyPrices self ctx items s) := by
  constructor
  · intro h
    have hi : items ≠ [] := by
      rintro rfl
      obtain ⟨t, hb, -⟩ := (h []).2 s rfl
      exact ((batchDeposit_iff hsmall).mp ⟨t, hb⟩).1 rfl
    refine ⟨hi, fun ha xs hm => ⟨fun hr => ?_, fun hr => ?_⟩⟩
    · obtain ⟨t, hb⟩ := (batchDeposit_iff hsmall).mpr ⟨hi, ha, hr, hm⟩
      obtain ⟨t', hs, -⟩ := (h xs).1 t hb
      exact ((depositAll_iff (.inl hi)).mp ⟨t', hs⟩).2.1
    · obtain ⟨t', hs⟩ := (depositAll_iff (.inl hi)).mpr ⟨ha, hr, hm⟩
      obtain ⟨t, hb, -⟩ := (h xs).2 t' hs
      exact ((batchDeposit_iff hsmall).mp ⟨t, hb⟩).2.2.1
  · rintro ⟨hi, hst⟩
    exact matches_of_steady hsmall hi hst

/-- Four hundred and six hundred at two tokens a share, a rate that divides both. -/
def evenRun : List (Move Outside) :=
  [.world (.wallet 3 1000), .world (.wallet 4 400), .world (.wallet 5 600),
    .call ⟨0, []⟩ (.initializeAdapter 1 2 9), .call ⟨0, [3]⟩ (.deposit 3 1000),
    .world (.donate 1000)]

theorem batch_matches_two_to_one :
    let s := run (honest 0) (outside 0) genesis evenRun
    [(4, 400), (5, 600)].length ≤ maxBatchSize ∧
      (batchDeposit (honest 0) ⟨0, [4, 5]⟩ [4, 5] [400, 600] s).toOption.map Prod.fst =
        some [200, 300] ∧
      BatchMatches 0 ⟨0, [4, 5]⟩ [(4, 400), (5, 600)] s := by
  intro s
  have hs : s.store.totalShares = 1000 := by decide +kernel
  have hg : s.gross 0 = 2000 := by decide +kernel
  have ho : s.store.liabilities = 0 := by decide +kernel
  have hf {x : Int} (h : Quote 1000 2000 0 400 x) : x = 200 := h.2.elim nofun (·.2.2.2.2.2.2)
  have hon {x : Int} (h : Quote 1000 2000 0 600 x) : x = 300 := h.2.elim nofun (·.2.2.2.2.2.2)
  have hm {x : Int} (h : Quote 1200 2400 0 600 x) : x = 300 := h.2.elim nofun (·.2.2.2.2.2.2)
  refine ⟨by decide, by decide +kernel, (batch_matches_iff 0 ⟨0, [4, 5]⟩ [(4, 400), (5, 600)] s
    (by decide)).mpr ⟨by decide, fun _ xs _ => ?_⟩⟩
  match xs with
  | [] | [_] | _ :: _ :: _ :: _ => simp [OneRate, MovingRate]
  | [x, y] =>
    constructor
    · rintro ⟨hx, -, hy, -⟩
      obtain rfl := hf hx
      obtain rfl := hon hy
      exact ⟨hx, by decide, trivial⟩
    · rintro ⟨hx, hy, -⟩
      obtain rfl := hf hx
      obtain rfl := hm hy
      exact ⟨hx, by decide, by decide, by decide, trivial⟩

/-- A donation before the first deposit. -/
def donatedRun : List (Move Outside) :=
  [.world (.wallet 4 20), .call ⟨0, []⟩ (.initializeAdapter 1 2 9), .world (.donate 10)]

/-- The batch gives both deposits the first price, the second single deposit pays for the
donation. -/
theorem batch_ignores_moved_rate :
    let s := run (honest 0) (outside 0) genesis donatedRun
    (batchDeposit (honest 0) ⟨0, [4]⟩ [4, 4] [10, 10] s).toOption.map Prod.fst = some [10, 10] ∧
      (depositAll (honest 0) ⟨0, [4]⟩ [(4, 10), (4, 10)] s).toOption.map Prod.fst =
        some [10, 5] := by
  decide +kernel

end Stow.Adapter
