import Stow.Adapter.Accounting
import Stow.Adapter.Admin

/-! Deposits: single and batched. -/
namespace Stow.Adapter

open Stow.Lib Stow.Lib.Contract Call

variable {W : Type} (H : Host W)

def maxBatchSize : Nat := 10

/-- The stored position of an owner, or a fresh one. -/
def positionOf (positions : SortedMap Address Position) (owner : Address) (now : Nat) : Position :=
  (positions.get owner).getD ⟨owner, 0, now, now⟩

/-- Write an owner's share count. -/
def writeShares (positions : SortedMap Address Position) (owner : Address) (now : Nat)
    (shares : Int) : SortedMap Address Position :=
  positions.set owner { positionOf positions owner now with shares := shares, updatedAt := now }

def Store.positionOf (st : Store) (owner : Address) (now : Nat) : Position :=
  Adapter.positionOf st.positions owner now

def Store.setShares (st : Store) (owner : Address) (now : Nat) (shares : Int) : Store :=
  { st with positions := writeShares st.positions owner now shares }

/-- The deployed balance the cap is checked against, read only when a cap is set. -/
def cappedBalance (active : Option StrategyInfo) : Action W Int :=
  match active with
  | some info => if 0 < info.depositCap then strategyBalance H info.address else pure 0
  | none => pure 0

def checkDepositCap (active : Option StrategyInfo) (deployed amount : Int) : Action W Unit :=
  match active with
  | some info =>
    if 0 < info.depositCap then do
      let deployedAfter ← orFail (checkedAdd deployed amount) .overflow
      require (deployedAfter ≤ info.depositCap) .strategyCapExceeded
    else pure ()
  | none => pure ()

/-- Hand the deposited amount to the active strategy, if there is one. -/
def forward (active : Option StrategyInfo) (amount : Int) : Action W Unit :=
  match active with
  | some info => deployToStrategy H info.address amount
  | none => pure ()

def deposit (ctx : Ctx) (source : Address) (amount : Int) : Action W Int := do
  requireAuth H ctx source
  requireNotPaused
  require (0 < amount) .invalidAmount
  let shares ← convertToShares H amount
  require (shares ≠ 0) .invalidAmount
  let active ← load (·.activeInfo)
  let deployed ← cappedBalance H active
  checkDepositCap active deployed amount
  let newTotalShares ← orFail (checkedAdd (← load (·.totalShares)) shares) .overflow
  let position ← load (·.positionOf source ctx.now)
  let newPositionShares ← orFail (checkedAdd position.shares shares) .overflow
  transferIn H source amount
  forward H active amount
  save (·.setShares source ctx.now newPositionShares)
  save (·.setTotalShares newTotalShares)
  publish (.deposited source amount shares newPositionShares ctx.now)
  pure shares

def authAll (ctx : Ctx) : List Address → Action W Unit
  | [] => pure ()
  | a :: rest => do
    requireAuth H ctx a
    authAll ctx rest

/-- The validation pass: the shares of each item, all at the rate before the batch, and the
running total of the amounts. -/
def priceBatch : List Int → Int → Action W (List Int × Int)
  | [], total => pure ([], total)
  | amount :: rest, total => do
    require (0 < amount) .invalidAmount
    let shares ← convertToShares H amount
    require (shares ≠ 0) .invalidAmount
    let total ← orFail (checkedAdd total amount) .overflow
    let r ← priceBatch rest total
    pure (shares :: r.1, r.2)

/-- The execution pass over `(depositor, amount, shares)`. -/
def mintBatch (ctx : Ctx) : List (Address × Int × Int) → Int → Action W Int
  | [], newTotalShares => pure newTotalShares
  | (source, amount, shares) :: rest, newTotalShares => do
    let newTotalShares ← orFail (checkedAdd newTotalShares shares) .overflow
    let position ← load (·.positionOf source ctx.now)
    let newPositionShares ← orFail (checkedAdd position.shares shares) .overflow
    transferIn H source amount
    save (·.setShares source ctx.now newPositionShares)
    publish (.deposited source amount shares newPositionShares ctx.now)
    mintBatch ctx rest newTotalShares

def batchDeposit (ctx : Ctx) (sources : List Address) (amounts : List Int) :
    Action W (List Int) := do
  requireNotPaused
  require (sources ≠ [] ∧ amounts ≠ []) .emptyBatch
  require (sources.length ≤ maxBatchSize ∧ amounts.length ≤ maxBatchSize) .batchTooLarge
  require (sources.length = amounts.length) .invalidAmount
  authAll H ctx sources
  let active ← load (·.activeInfo)
  let initialDeployed ← cappedBalance H active
  let priced ← priceBatch H amounts 0
  checkDepositCap active initialDeployed priced.2
  let newTotalShares ← mintBatch H ctx (sources.zip (amounts.zip priced.1))
    (← load (·.totalShares))
  forward H active priced.2
  save (·.setTotalShares newTotalShares)
  pure priced.1

def getPosition (owner : Address) : Action W Position := do
  orFail ((← load (·.positions)).get owner) .notFound

variable {H}

variable {s t : Sys W}

theorem cappedBalance_quiet {active : Option StrategyInfo} {b : Int}
    (h : cappedBalance H active s = .ok (b, t)) : Quiet s t := by
  cases active with
  | none =>
    simp only [cappedBalance, pure_ok] at h
    exact h.2 ▸ Quiet.refl s
  | some info =>
    simp only [cappedBalance, ite_ok, pure_ok] at h
    rcases h with ⟨-, h⟩ | ⟨-, -, rfl⟩
    · exact (strategyBalance_quiet h).1
    · exact Quiet.refl s

variable {u : Unit}

theorem checkDepositCap_ok {active : Option StrategyInfo} {deployed amount : Int}
    (h : checkDepositCap active deployed amount s = .ok (u, t)) : s = t := by
  cases active with
  | none =>
    simp only [checkDepositCap, pure_ok] at h
    exact h.2
  | some info =>
    simp only [checkDepositCap, ite_ok, pure_ok, bind_ok, orFail_ok,
      require_ok] at h
    rcases h with ⟨-, _, _, ⟨-, rfl⟩, -, rfl⟩ | ⟨-, -, rfl⟩ <;> rfl

theorem bind_checkDepositCap {β : Type} {active : Option StrategyInfo} {deployed amount : Int}
    {f : Unit → Action W β} {b : β} :
    (checkDepositCap active deployed amount >>= f) s = .ok (b, t) ↔
      checkDepositCap active deployed amount s = .ok ((), s) ∧ f () s = .ok (b, t) := by
  rw [bind_ok]
  constructor
  · rintro ⟨_, _, hc, h⟩
    obtain rfl := checkDepositCap_ok hc
    exact ⟨hc, h⟩
  · exact fun h => ⟨(), s, h⟩

theorem forward_quiet {active : Option StrategyInfo} {amount : Int}
    (h : forward H active amount s = .ok (u, t)) : Quiet s t := by
  cases active with
  | none =>
    simp only [forward, pure_ok] at h
    exact h.2 ▸ Quiet.refl s
  | some info => exact deployToStrategy_quiet h

variable {ctx : Ctx}

/-- What a successful deposit checks, calls and writes. -/
theorem deposit_ok {source : Address} {amount shares : Int} :
    deposit H ctx source amount s = .ok (shares, t) ↔
      (source ∈ ctx.auths ∧ source ≠ H.self) ∧ s.store.paused = false ∧ 0 < amount ∧ shares ≠ 0 ∧
      FitsI128 (s.store.totalShares + shares) ∧
      FitsI128 ((s.store.positionOf source ctx.now).shares + shares) ∧
      ∃ s₁ s₂ s₃ s₄ deployed, convertToShares H amount s = .ok (shares, s₁) ∧
        cappedBalance H s.store.activeInfo s₁ = .ok (deployed, s₂) ∧
        checkDepositCap s.store.activeInfo deployed amount s₂ = .ok ((), s₂) ∧
        transferIn H source amount s₂ = .ok ((), s₃) ∧
        forward H s.store.activeInfo amount s₃ = .ok ((), s₄) ∧
        t = ⟨(s.store.setShares source ctx.now
            ((s.store.positionOf source ctx.now).shares + shares)).setTotalShares
              (s.store.totalShares + shares),
          s.log ++ [.deposited source amount shares
            ((s.store.positionOf source ctx.now).shares + shares) ctx.now], s₄.world⟩ := by
  simp only [deposit, entry_rules, bind_quiet convertToShares_quiet, bind_quiet cappedBalance_quiet,
    bind_checkDepositCap, bind_quiet transferIn_quiet, bind_quiet forward_quiet]
  constructor
  · rintro ⟨hsg, hr, ha, _, w₁, hc, hs, deployed, w₂, hcp, hch, _, ⟨ht, rfl⟩, _, ⟨hp, rfl⟩,
      _, w₃, hin, _, w₄, hf, rfl, rfl⟩
    exact ⟨hsg, hr, ha, hs, ht, hp, _, _, _, _, deployed, hc, hcp, hch, hin, hf, rfl⟩
  · rintro ⟨hsg, hr, ha, hs, ht, hp, s₁, s₂, s₃, s₄, deployed, hc, hcp, hch, hin, hf, rfl⟩
    obtain ⟨w₁, rfl⟩ := (convertToShares_quiet hc).eq
    obtain ⟨w₂, rfl⟩ := (cappedBalance_quiet hcp).eq
    obtain ⟨w₃, rfl⟩ := (transferIn_quiet hin).eq
    obtain ⟨w₄, rfl⟩ := (forward_quiet hf).eq
    exact ⟨hsg, hr, ha, shares, w₁, hc, hs, deployed, w₂, hcp, hch, _, ⟨ht, rfl⟩, _, ⟨hp, rfl⟩,
      (), w₃, hin, (), w₄, hf, rfl, rfl⟩

theorem deposit_token {source : Address} {amount shares : Int}
    (h : deposit H ctx source amount s = .ok (shares, t)) : s.store.token ≠ none := by
  obtain ⟨-, -, -, -, -, -, _, _, _, _, _, hc, hcp, -, hin, -⟩ := deposit_ok.mp h
  rw [← ((convertToShares_quiet hc).trans (cappedBalance_quiet hcp)).1]
  exact transferIn_token hin

theorem authAll_ok {owners : List Address} :
    authAll H ctx owners s = .ok (u, t) ↔
      (∀ a ∈ owners, a ∈ ctx.auths ∧ a ≠ H.self) ∧ s = t := by
  induction owners with
  | nil => simp [authAll]
  | cons a rest ih => simp only [authAll, ih, List.forall_mem_cons, and_assoc, entry_rules]

variable {r : List Int × Int}

/-- One item of the validation pass. -/
theorem priceBatch_cons_ok {amount total : Int} {rest : List Int} :
    priceBatch H (amount :: rest) total s = .ok (r, t) ↔
      ∃ shares s₁ r', 0 < amount ∧ FitsI128 (total + amount) ∧ shares ≠ 0 ∧
        convertToShares H amount s = .ok (shares, s₁) ∧
        priceBatch H rest (total + amount) s₁ = .ok (r', t) ∧ r = (shares :: r'.1, r'.2) := by
  simp only [priceBatch, bind_rules, bind_ok (x := convertToShares H amount),
    bind_ok (x := priceBatch H rest _)]
  constructor
  · rintro ⟨ha, shares, s₁, hc, hne, _, ⟨hf, rfl⟩, r', _, hr, rfl, rfl⟩
    exact ⟨shares, s₁, r', ha, hf, hne, hc, hr, rfl⟩
  · rintro ⟨shares, s₁, r', ha, hf, hne, hc, hr, rfl⟩
    exact ⟨ha, shares, s₁, hc, hne, _, ⟨hf, rfl⟩, r', t, hr, rfl, rfl⟩

variable {amounts : List Int}

theorem priceBatch_quiet {total : Int} (h : priceBatch H amounts total s = .ok (r, t)) :
    Quiet s t ∧ r.1.length = amounts.length ∧ r.2 = total + amounts.sum := by
  induction amounts generalizing total s r with
  | nil =>
    simp only [priceBatch, pure_ok] at h
    obtain ⟨rfl, rfl⟩ := h
    exact ⟨Quiet.refl s, rfl, by simp⟩
  | cons amount rest ih =>
    obtain ⟨shares, s₁, r', -, -, -, hc, hr, rfl⟩ := priceBatch_cons_ok.mp h
    obtain ⟨hq, hl, hs⟩ := ih hr
    exact ⟨(convertToShares_quiet hc).trans hq, by simp [hl], by simp [hs, add_assoc]⟩

theorem priceBatch_pos {total : Int} (hs : 0 ≤ s.store.totalShares)
    (h : priceBatch H amounts total s = .ok (r, t)) : ∀ x ∈ r.1, 0 < x := by
  induction amounts generalizing total s r with
  | nil =>
    simp only [priceBatch, pure_ok] at h
    obtain ⟨rfl, rfl⟩ := h
    simp
  | cons amount rest ih =>
    obtain ⟨shares, s₁, r', -, -, hne, hc, hr, rfl⟩ := priceBatch_cons_ok.mp h
    have hnn := convertToShares_nonneg hs hc
    have hrc := ih (by rw [(convertToShares_quiet hc).1]; exact hs) hr
    intro x hx
    rcases List.mem_cons.mp hx with rfl | hx
    · omega
    · exact hrc x hx

/-- The positions after minting a list of `(owner, shares)` one after another. -/
def mintAll (now : Nat) :
    List (Address × Int) → SortedMap Address Position → SortedMap Address Position
  | [], positions => positions
  | (owner, shares) :: rest, positions =>
    mintAll now rest
      (writeShares positions owner now ((positionOf positions owner now).shares + shares))

/-- One item of the execution pass. -/
theorem mintBatch_cons_ok {source : Address} {amount shares total total' : Int}
    {rest : List (Address × Int × Int)}
    (h : mintBatch H ctx ((source, amount, shares) :: rest) total s = .ok (total', t)) :
    ∃ s₁ log', FitsI128 ((s.store.positionOf source ctx.now).shares + shares) ∧
      FitsI128 (total + shares) ∧ transferIn H source amount s = .ok ((), s₁) ∧
      mintBatch H ctx rest (total + shares)
        ⟨s.store.setShares source ctx.now ((s.store.positionOf source ctx.now).shares + shares),
          log', s₁.world⟩ = .ok (total', t) := by
  simp only [mintBatch, bind_rules] at h
  obtain ⟨_, ⟨ht, rfl⟩, _, ⟨hp, rfl⟩, h⟩ := h
  obtain ⟨_, s₁, hin, h⟩ := bind_ok.mp h
  simp only [(transferIn_quiet hin).1, bind_rules] at h
  exact ⟨s₁, _, hp, ht, hin, h⟩

theorem mintBatch_store {items : List (Address × Int × Int)} {total total' : Int}
    (h : mintBatch H ctx items total s = .ok (total', t)) :
    t.store = { s.store with
        positions := mintAll ctx.now (items.map (fun i => (i.1, i.2.2))) s.store.positions } ∧
      total' = total + (items.map (fun i => i.2.2)).sum := by
  induction items generalizing total s with
  | nil =>
    simp only [mintBatch, pure_ok] at h
    obtain ⟨rfl, rfl⟩ := h
    simp [mintAll]
  | cons item rest ih =>
    obtain ⟨source, amount, shares⟩ := item
    obtain ⟨s₁, log', -, -, -, hr⟩ := mintBatch_cons_ok h
    obtain ⟨hst, ht⟩ := ih hr
    exact ⟨hst, by simp [ht, add_assoc]⟩

theorem mintBatch_token {items : List (Address × Int × Int)} {total total' : Int} (hne : items ≠ [])
    (h : mintBatch H ctx items total s = .ok (total', t)) : s.store.token ≠ none := by
  cases items with
  | nil => exact absurd rfl hne
  | cons item rest =>
    obtain ⟨s₁, log', -, -, hin, -⟩ := mintBatch_cons_ok h
    exact transferIn_token hin

/-- What a successful batch checks, calls and writes. -/
theorem batchDeposit_ok {sources : List Address} {shares : List Int} :
    batchDeposit H ctx sources amounts s = .ok (shares, t) ↔
      s.store.paused = false ∧ (sources ≠ [] ∧ amounts ≠ []) ∧
      (sources.length ≤ maxBatchSize ∧ amounts.length ≤ maxBatchSize) ∧
      sources.length = amounts.length ∧ (∀ a ∈ sources, a ∈ ctx.auths ∧ a ≠ H.self) ∧
      ∃ s₁ s₂ s₃ s₄ deployed total newTotal,
        cappedBalance H s.store.activeInfo s = .ok (deployed, s₁) ∧
        priceBatch H amounts 0 s₁ = .ok ((shares, total), s₂) ∧
        checkDepositCap s.store.activeInfo deployed total s₂ = .ok ((), s₂) ∧
        mintBatch H ctx (sources.zip (amounts.zip shares)) s.store.totalShares s₂ =
          .ok (newTotal, s₃) ∧
        forward H s.store.activeInfo total s₃ = .ok ((), s₄) ∧
        t = ⟨s₃.store.setTotalShares newTotal, s₃.log, s₄.world⟩ := by
  simp only [batchDeposit, entry_rules, bind_ok (x := authAll _ _ _), authAll_ok,
    bind_quiet cappedBalance_quiet, bind_quiet fun h => (priceBatch_quiet h).1,
    bind_checkDepositCap, bind_ok (x := mintBatch _ _ _ _), bind_quiet forward_quiet]
  refine and_congr_right fun _ => and_congr_right fun _ => and_congr_right fun _ =>
    and_congr_right fun _ => ?_
  constructor
  · rintro ⟨_, _, ⟨hs, rfl⟩, deployed, w₁, hcp, ⟨_, total⟩, w₂, hp, hc, newTotal, s₃, hm,
      _, w₄, hf, rfl, rfl⟩
    exact ⟨hs, _, _, s₃, _, deployed, total, newTotal, hcp, hp, hc, hm, hf, rfl⟩
  · rintro ⟨hs, s₁, s₂, s₃, s₄, deployed, total, newTotal, hcp, hp, hc, hm, hf, rfl⟩
    obtain ⟨w₁, rfl⟩ := (cappedBalance_quiet hcp).eq
    obtain ⟨w₂, rfl⟩ := (priceBatch_quiet hp).1.eq
    obtain ⟨w₄, rfl⟩ := (forward_quiet hf).eq
    exact ⟨(), s, ⟨hs, rfl⟩, deployed, w₁, hcp, _, w₂, hp, hc, newTotal, s₃, hm,
      (), w₄, hf, rfl, rfl⟩

/-- The storage after a batch. -/
theorem batchDeposit_writes {sources : List Address} {shares : List Int}
    (h : batchDeposit H ctx sources amounts s = .ok (shares, t)) :
    s.store.token ≠ none ∧ shares.length = amounts.length ∧
      t.store = { s.store with
        positions := mintAll ctx.now ((sources.zip (amounts.zip shares)).map
          (fun i => (i.1, i.2.2))) s.store.positions
        totalShares := s.store.totalShares +
          ((sources.zip (amounts.zip shares)).map (fun i => i.2.2)).sum } := by
  obtain ⟨-, ⟨hs, -⟩, -, hl, -, s₁, s₂, s₃, s₄, deployed, total, newTotal, hc, hp, -,
    hm, -, rfl⟩ := batchDeposit_ok.mp h
  obtain ⟨hq, hsh, -⟩ := priceBatch_quiet hp
  have hst := ((cappedBalance_quiet hc).trans hq).1
  have hne : sources.zip (amounts.zip shares) ≠ [] := by
    have hps := List.length_pos_iff.mpr hs
    have hsh : shares.length = amounts.length := hsh
    refine List.ne_nil_of_length_pos ?_
    simp only [List.length_zip]
    omega
  obtain ⟨hw, rfl⟩ := mintBatch_store hm
  refine ⟨hst ▸ mintBatch_token hne hm, hsh, ?_⟩
  simp only [hw, hst, Store.setTotalShares]

end Stow.Adapter
