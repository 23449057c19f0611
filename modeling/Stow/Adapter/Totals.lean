import Stow.Adapter.Step

/-! The adapter's running totals agree with its records, whatever the token and strategies do. -/
namespace Stow.Adapter

open Stow.Lib Stow.Lib.Contract SortedMap

/-- What a request still owes its owner. -/
def WithdrawRequest.owed (r : WithdrawRequest) : Int := if r.pending then r.assets else 0

/-- The supply is the sum of all positions, none of them negative. -/
structure SharesOk (total : Int) (positions : SortedMap Address Position) : Prop where
  total_eq : total = positions.sum Position.shares
  nonneg : ∀ a p, positions.get a = some p → 0 ≤ p.shares

/-- The reservation is the sum of what pending requests owe. Ids are keys and never reused. -/
structure QueueOk (reserved : Int) (next : Nat) (requests : SortedMap Nat WithdrawRequest) :
    Prop where
  reserved_eq : reserved = requests.sum WithdrawRequest.owed
  pos : ∀ id r, requests.get id = some r → r.pending = true → 0 < r.assets
  id_eq : ∀ id r, requests.get id = some r → r.id = id ∧ id ≤ next

/-- Strategy ids are keys and never reused, and the active one is registered. -/
structure RegistryOk (next : Nat) (active : Option Nat) (strategies : SortedMap Nat StrategyInfo) :
    Prop where
  id_eq : ∀ id info, strategies.get id = some info → info.id = id ∧ id ≤ next
  active_known : ∀ id, active = some id → strategies.get id ≠ none

structure LimitsOk (fees deployed : Int) (bps : Nat) : Prop where
  fees_nonneg : 0 ≤ fees
  deployed_nonneg : 0 ≤ deployed
  bps_le : bps ≤ maxPerformanceFeeBps

/-- Either set up, or without any record. -/
def SetupOk (st : Store) : Prop :=
  (st.admin ≠ none ∧ st.token ≠ none) ∨
    (st.admin = none ∧ st.token = none ∧ st.positions = .empty ∧ st.withdrawRequests = .empty ∧
      st.strategies = .empty)

structure WellFormed (st : Store) : Prop where
  shares : SharesOk st.totalShares st.positions
  queue : QueueOk st.reservedWithdrawAssets st.nextWithdrawId st.withdrawRequests
  registry : RegistryOk st.nextStrategyId st.activeStrategy st.strategies
  limits : LimitsOk st.feesAccrued st.deployedBalance st.performanceFeeBps
  setup : SetupOk st

theorem deployed_wellFormed : WellFormed .deployed where
  shares := ⟨rfl, by simp [Store.deployed]⟩
  queue := ⟨rfl, by simp [Store.deployed], by simp [Store.deployed]⟩
  registry := ⟨by simp [Store.deployed], by simp [Store.deployed]⟩
  limits := ⟨le_rfl, le_rfl, Nat.zero_le _⟩
  setup := .inr ⟨rfl, rfl, rfl, rfl, rfl⟩

variable {st : Store}

theorem SetupOk.of_token (h : SetupOk st) (ht : st.token ≠ none) :
    st.admin ≠ none ∧ st.token ≠ none :=
  h.resolve_right (fun hn => ht hn.2.1)

theorem SetupOk.of_admin (h : SetupOk st) (ha : st.admin ≠ none) :
    st.admin ≠ none ∧ st.token ≠ none :=
  h.resolve_right (fun hn => ha hn.1)

theorem SetupOk.of_position (h : SetupOk st) {a : Address} {p : Position}
    (hp : st.positions.get a = some p) : st.admin ≠ none ∧ st.token ≠ none :=
  h.resolve_right (fun hn => by simp [hn.2.2.1] at hp)

variable {r : WithdrawRequest}

theorem SetupOk.of_request (h : SetupOk st) {id : Nat} (hr : st.withdrawRequests.get id = some r) :
    st.admin ≠ none ∧ st.token ≠ none :=
  h.resolve_right (fun hn => by simp [hn.2.2.2.1] at hr)

theorem SetupOk.of_strategy (h : SetupOk st) {id : Nat} {info : StrategyInfo}
    (hi : st.strategies.get id = some info) : st.admin ≠ none ∧ st.token ≠ none :=
  h.resolve_right (fun hn => by simp [hn.2.2.2.2] at hi)

variable {positions : SortedMap Address Position}

theorem SharesOk.total_nonneg {total : Int} (h : SharesOk total positions) : 0 ≤ total :=
  h.total_eq ▸ sum_nonneg h.nonneg

theorem positionOf_shares (positions : SortedMap Address Position) (owner : Address) (now : Nat) :
    (positionOf positions owner now).shares = (positions.get owner).elim 0 Position.shares := by
  unfold positionOf
  cases positions.get owner <;> rfl

theorem SharesOk.positionOf_nonneg {total : Int} (h : SharesOk total positions) (owner : Address)
    (now : Nat) : 0 ≤ (positionOf positions owner now).shares := by
  rw [positionOf_shares]
  cases hp : positions.get owner with
  | none => exact le_rfl
  | some p => exact h.nonneg owner p hp

/-- Writing one position moves the supply by the same amount. -/
theorem SharesOk.write {total shares : Int} (h : SharesOk total positions) (owner : Address)
    (now : Nat) (hs : 0 ≤ shares) :
    SharesOk (total - (positionOf positions owner now).shares + shares)
      (writeShares positions owner now shares) where
  total_eq := by
    rw [writeShares, sum_set, h.total_eq, positionOf_shares]
  nonneg := Forall.set h.nonneg hs

/-- Minting to an owner keeps the supply in step. -/
theorem SharesOk.mint {total shares : Int} (h : SharesOk total positions) (owner : Address)
    (now : Nat) (hs : 0 ≤ shares) :
    SharesOk (total + shares)
      (writeShares positions owner now ((positionOf positions owner now).shares + shares)) := by
  have hw := h.write owner now (add_nonneg (h.positionOf_nonneg owner now) hs)
  rwa [← add_assoc, sub_add_cancel] at hw

theorem SharesOk.mintAll {items : List (Address × Int)} {total : Int} (h : SharesOk total positions)
    (now : Nat) (hp : ∀ i ∈ items, 0 ≤ i.2) :
    SharesOk (total + (items.map Prod.snd).sum) (mintAll now items positions) := by
  induction items generalizing total positions with
  | nil => simpa [Adapter.mintAll] using h
  | cons item rest ih =>
    obtain ⟨owner, shares⟩ := item
    have hm := h.mint owner now (hp (owner, shares) List.mem_cons_self)
    have hr := ih hm (fun i hi => hp i (List.mem_cons_of_mem _ hi))
    simpa [Adapter.mintAll, add_assoc] using hr

variable {reserved : Int}

theorem QueueOk.get_eq_none {next id : Nat} {requests : SortedMap Nat WithdrawRequest}
    (h : QueueOk reserved next requests) (hid : next < id) : requests.get id = none :=
  SortedMap.Forall.get_eq_none h.id_eq (fun _ hr => absurd hr.2 (not_le.mpr hid))

/-- A new request is recorded under an id no other request has. -/
theorem QueueOk.enqueue {next : Nat} {requests : SortedMap Nat WithdrawRequest}
    (h : QueueOk reserved next requests) (hid : r.id = next + 1) (hp : r.pending = true)
    (ha : 0 < r.assets) :
    QueueOk (reserved + r.assets) (next + 1) (requests.set r.id r) where
  reserved_eq := by
    have hn : requests.get r.id = none := h.get_eq_none (by omega)
    rw [sum_set, hn, h.reserved_eq]
    simp [WithdrawRequest.owed, hp]
  pos := Forall.set h.pos fun _ => ha
  id_eq := by
    refine Forall.set (fun id q hq => ?_) ⟨rfl, hid.le⟩
    exact (h.id_eq id q hq).imp_right Nat.le_succ_of_le

/-- Resolving a pending request releases exactly its assets. -/
theorem QueueOk.resolve {next id : Nat} {requests : SortedMap Nat WithdrawRequest}
    (h : QueueOk reserved next requests) {q : WithdrawRequest} (hg : requests.get id = some r)
    (hp : r.pending = true) (hid : q.id = r.id) (hq : q.pending = false) :
    QueueOk (reserved - r.assets) next (requests.set q.id q) := by
  have hky := (h.id_eq id r hg).1
  rw [hid, hky]
  refine ⟨?_, ?_, ?_⟩
  · rw [sum_set, hg, h.reserved_eq]
    simp [WithdrawRequest.owed, hp, hq]
  · exact Forall.set h.pos (by simp [hq])
  · exact Forall.set h.id_eq ⟨hid.trans hky, (h.id_eq id r hg).2⟩

theorem RegistryOk.save {next next' : Nat} {active : Option Nat}
    {strategies : SortedMap Nat StrategyInfo} (h : RegistryOk next active strategies)
    (info : StrategyInfo) (hle : next ≤ next') (hid : info.id ≤ next') :
    RegistryOk next' active (strategies.set info.id info) where
  id_eq := by
    refine Forall.set (fun id i hi => ?_) ⟨rfl, hid⟩
    exact (h.id_eq id i hi).imp_right hle.trans'
  active_known := by
    intro id hid
    rw [get_set]
    split_ifs
    · simp
    · exact h.active_known id hid

theorem pending_claimed (r : WithdrawRequest) (now : Nat) :
    WithdrawRequest.pending { r with claimedAt := some now } = false := by
  simp [WithdrawRequest.pending]

theorem pending_cancelled (r : WithdrawRequest) (now : Nat) :
    WithdrawRequest.pending { r with cancelledAt := some now } = false := by
  simp [WithdrawRequest.pending]

section

variable {W E : Type} {H : Host W} {outside : E → W → W} {ctx : Ctx} {s t : Sys W}

section

variable (hwf : WellFormed s.store)

include hwf

theorem deposit_wellFormed {source : Address} {amount shares : Int}
    (h : deposit H ctx source amount s = .ok (shares, t)) : WellFormed t.store := by
  have ht := deposit_token h
  obtain ⟨-, -, -, -, -, -, _, _, _, _, _, hc, -, -, -, -, rfl⟩ := deposit_ok.mp h
  have hs := convertToShares_nonneg hwf.shares.total_nonneg hc
  exact { hwf with
    shares := hwf.shares.mint source ctx.now hs, setup := .inl (hwf.setup.of_token ht) }

theorem batchDeposit_wellFormed {sources : List Address} {amounts shares : List Int}
    (h : batchDeposit H ctx sources amounts s = .ok (shares, t)) : WellFormed t.store := by
  obtain ⟨ht, -, hst⟩ := batchDeposit_writes h
  obtain ⟨-, -, -, -, -, _, _, _, _, _, _, _, hc, hp, -⟩ := batchDeposit_ok.mp h
  have hps := priceBatch_pos (by rw [(cappedBalance_quiet hc).1]; exact hwf.shares.total_nonneg)
    hp
  have hit : ∀ i ∈ (sources.zip (amounts.zip shares)).map (fun i => (i.1, i.2.2)), 0 ≤ i.2 := by
    intro i hi
    obtain ⟨⟨a, x, y⟩, hxy, rfl⟩ := List.mem_map.mp hi
    exact (hps y (List.of_mem_zip (List.of_mem_zip hxy).2).2).le
  have hs := hwf.shares.mintAll ctx.now hit
  rw [List.map_map] at hs
  rw [hst]
  exact { hwf with shares := hs, setup := .inl (hwf.setup.of_token ht) }

theorem requestWithdraw_wellFormed {owner : Address} {shares : Int} {id : Nat}
    (h : requestWithdraw H ctx owner shares s = .ok (id, t)) : WellFormed t.store := by
  obtain ⟨-, -, hsh, -, -, rfl, position, assets, _, hp, hle, -, -, hc, hne, -, rfl⟩ :=
    requestWithdraw_ok.mp h
  have ha := convertToAssets_nonneg hwf.shares.total_nonneg hc
  have hold : (positionOf s.store.positions owner ctx.now).shares = position.shares := by
    rw [positionOf_shares, hp]
    rfl
  have hn : 0 ≤ position.shares - shares := by omega
  have hs := hwf.shares.write owner ctx.now hn
  rw [hold, show s.store.totalShares - position.shares + (position.shares - shares) =
    s.store.totalShares - shares by omega] at hs
  have hq := hwf.queue.enqueue (r := ⟨s.store.nextWithdrawId + 1, owner, shares, assets,
    ctx.now + s.store.withdrawCooldown, ctx.now, none, none⟩) rfl rfl
    (lt_of_le_of_ne ha hne.symm)
  exact ⟨hs, hq, hwf.registry, hwf.limits, .inl (hwf.setup.of_position hp)⟩

theorem claimWithdraw_wellFormed {owner : Address} {requestId : Nat} {assets : Int}
    (h : claimWithdraw H ctx owner requestId s = .ok (assets, t)) : WellFormed t.store := by
  obtain ⟨-, request, s₁, s₂, hg, -, hp, -, -, hst, -⟩ := claimWithdraw_ok h
  rw [hst]
  exact { hwf with
    queue := hwf.queue.resolve hg hp rfl (pending_claimed request ctx.now)
    setup := .inl (hwf.setup.of_request hg) }

theorem cancelWithdraw_wellFormed {owner : Address} {requestId : Nat} {u : Unit}
    (h : cancelWithdraw H ctx owner requestId s = .ok (u, t)) : WellFormed t.store := by
  obtain ⟨-, request, shares, _, hg, -, hp, hc, -, -, -, -, rfl⟩ := cancelWithdraw_ok.mp h
  have hs := convertToShares_nonneg hwf.shares.total_nonneg hc
  exact ⟨hwf.shares.mint owner ctx.now hs,
    hwf.queue.resolve hg hp rfl (pending_cancelled request ctx.now), hwf.registry, hwf.limits,
    .inl (hwf.setup.of_request hg)⟩

theorem harvest_wellFormed {caller : Address} {delta : Int}
    (h : harvest H ctx caller s = .ok (delta, t)) : WellFormed t.store := by
  obtain ⟨info, s₁, live, -, hl, -, hst, -⟩ := harvest_ok h
  rw [hst]
  exact ⟨hwf.shares, hwf.queue, hwf.registry,
    ⟨add_nonneg hwf.limits.fees_nonneg (feeOn_nonneg _ _), (strategyBalance_quiet hl).2,
      hwf.limits.bps_le⟩, hwf.setup⟩

end

/-- Writing a strategy record touches nothing but the registry. -/
theorem WellFormed.saveStrategy (hwf : WellFormed st) (info : StrategyInfo) {next : Nat}
    (hle : st.nextStrategyId ≤ next) (hid : info.id ≤ next)
    (hs : st.admin ≠ none ∧ st.token ≠ none) :
    WellFormed { st with
      nextStrategyId := next, strategies := st.strategies.set info.id info } :=
  { hwf with registry := hwf.registry.save info hle hid, setup := .inl hs }

/-- Rewriting a stored strategy record under its own id. -/
theorem WellFormed.updateStrategy (hwf : WellFormed st) {id : Nat} {info info' : StrategyInfo}
    (hg : st.strategies.get id = some info) (hid : info'.id = info.id) :
    WellFormed (st.saveStrategy info') := by
  obtain ⟨hk, hle⟩ := hwf.registry.id_eq id info hg
  exact hwf.saveStrategy info' le_rfl (by omega) (hwf.setup.of_strategy hg)

theorem WellFormed.seeded (hwf : WellFormed st) (ha : st.admin = none)
    (admin treasury token : Address) : WellFormed (st.seeded admin treasury token) := by
  have hs := hwf.setup
  obtain ⟨-, -, hp, hr, hst⟩ := hs.resolve_left (fun hn => hn.1 ha)
  refine ⟨⟨?_, hwf.shares.nonneg⟩, ⟨?_, hwf.queue.pos, ?_⟩, ⟨?_, hwf.registry.active_known⟩,
    ⟨le_rfl, hwf.limits.deployed_nonneg, hwf.limits.bps_le⟩, .inl ⟨?_, ?_⟩⟩
  · simp [Store.seeded, hp]
  · simp [Store.seeded, hr]
  · simp [Store.seeded, hr]
  · simp [Store.seeded, hst]
  · simp [Store.seeded]
  · simp [Store.seeded]

/-- Every successful call keeps the storage well formed. -/
theorem exec_wellFormed {op : Op} (hwf : WellFormed s.store) (h : exec H ctx op s = .ok ((), t)) :
    WellFormed t.store := by
  cases op with
  | initializeAdapter admin treasury token =>
    obtain ⟨ha, hst, -⟩ := initializeAdapter_ok h
    exact hst ▸ hwf.seeded ha admin treasury token
  | setAdmin newAdmin =>
    simp only [exec, setAdmin, entry_rules] at h
    obtain ⟨_, ha, -, rfl⟩ := h
    exact { hwf with
      setup := .inl ⟨Option.some_ne_none newAdmin, (hwf.setup.of_admin (by simp [ha])).2⟩ }
  | setTreasury | setHarvestInterval | setPaused =>
    simp only [exec, setTreasury, setHarvestInterval, setPaused, entry_rules] at h
    obtain ⟨-, -, rfl⟩ := h
    exact { hwf with }
  | setPerformanceFeeBps caller bps =>
    simp only [exec, setPerformanceFeeBps, validateFeeBps, entry_rules] at h
    obtain ⟨-, -, hb, rfl⟩ := h
    exact { hwf with limits := { hwf.limits with bps_le := hb } }
  | setWithdrawCooldown caller seconds => exact absurd h (by simp [exec, setWithdrawCooldown])
  | upgrade caller newWasmHash =>
    simp only [exec, upgrade, entry_rules] at h
    obtain ⟨-, -, _, -, rfl⟩ := h
    exact hwf
  | registerStrategy caller address name =>
    obtain ⟨id, h⟩ := of_void h
    obtain ⟨ha, -, rfl, hst, -⟩ := registerStrategy_ok h
    exact hst ▸ hwf.saveStrategy ⟨_, address, name, 0, ctx.now, none⟩ (Nat.le_succ _) le_rfl
      (hwf.setup.of_admin (by simp [ha]))
  | deregisterStrategy caller strategyId =>
    simp only [exec, deregisterStrategy, getStrategy, entry_rules] at h
    obtain ⟨-, -, -, -, info, hg, -, rfl⟩ := h
    exact hwf.updateStrategy hg rfl
  | setActiveStrategy caller strategyId =>
    simp only [exec, setActiveStrategy, getStrategy, entry_rules] at h
    obtain ⟨-, -, -, -, info, hg, -, rfl⟩ := h
    exact ⟨hwf.shares, hwf.queue, ⟨hwf.registry.id_eq, by simp [Store.setActive, hg]⟩, hwf.limits,
      hwf.setup⟩
  | migrateStrategy caller newStrategyId =>
    obtain ⟨_, _, newInfo, _, _, deployed, moved, -, -, -, hn, -, -, -, hst, -⟩ :=
      migrateStrategy_ok h
    rw [hst]
    exact ⟨hwf.shares, hwf.queue, ⟨hwf.registry.id_eq, by simp [hn]⟩,
      ⟨hwf.limits.fees_nonneg, le_max_right _ _, hwf.limits.bps_le⟩, hwf.setup⟩
  | setStrategyDepositCap caller strategyId cap =>
    simp only [exec, setStrategyDepositCap, getStrategy, entry_rules] at h
    obtain ⟨-, -, -, -, info, hg, rfl⟩ := h
    exact hwf.updateStrategy hg rfl
  | deposit source amount =>
    obtain ⟨shares, h⟩ := of_void h
    exact deposit_wellFormed hwf h
  | batchDeposit sources amounts =>
    obtain ⟨shares, h⟩ := of_void h
    exact batchDeposit_wellFormed hwf h
  | requestWithdraw owner shares =>
    obtain ⟨id, h⟩ := of_void h
    exact requestWithdraw_wellFormed hwf h
  | claimWithdraw owner requestId =>
    obtain ⟨assets, h⟩ := of_void h
    exact claimWithdraw_wellFormed hwf h
  | cancelWithdraw owner requestId => exact cancelWithdraw_wellFormed hwf h
  | harvest caller =>
    obtain ⟨delta, h⟩ := of_void h
    exact harvest_wellFormed hwf h
  | withdrawFees caller =>
    obtain ⟨accrued, h⟩ := of_void h
    obtain ⟨-, -, treasury, s₁, -, hst, -⟩ := withdrawFees_ok h
    rw [hst]
    exact ⟨hwf.shares, hwf.queue, hwf.registry,
      ⟨le_rfl, hwf.limits.deployed_nonneg, hwf.limits.bps_le⟩, hwf.setup⟩
  | emergencyWithdrawAll caller =>
    obtain ⟨recovered, h⟩ := of_void h
    obtain ⟨_, _, _, _, -, -, -, hst, -⟩ := emergencyWithdrawAll_ok h
    rw [hst]
    exact ⟨hwf.shares, hwf.queue, ⟨hwf.registry.id_eq, by simp [Store.setActive]⟩,
      hwf.limits, hwf.setup⟩

theorem wellFormed_step (hwf : WellFormed s.store) (m : Move E) :
    WellFormed (step H outside s m).store :=
  step_induction (I := fun s => WellFormed s.store) hwf (fun _ _ _ h => exec_wellFormed hwf h)
    (fun _ => hwf) m

theorem wellFormed_run (w : W) (moves : List (Move E)) : WellFormed (run H outside w moves).store :=
  invariant_reachable (I := fun s : Sys W => WellFormed s.store)
    (fun _ m hwf => wellFormed_step hwf m)
    deployed_wellFormed moves

end

/-- In every reachable state the supply, the reservation and the fees agree with the records,
for any token and any strategies. -/
theorem running_totals_reachable {W E : Type} (H : Host W) (outside : E → W → W) (w : W)
    (moves : List (Move E)) :
    let st := (run H outside w moves).store
    st.totalShares = st.positions.sum Position.shares ∧
      (∀ a p, st.positions.get a = some p → 0 ≤ p.shares) ∧
      st.reservedWithdrawAssets =
        st.withdrawRequests.sum (fun r => if r.pending then r.assets else 0) ∧
      (∀ id r, st.withdrawRequests.get id = some r → r.pending = true → 0 < r.assets) ∧
      0 ≤ st.feesAccrued := by
  have hwf : WellFormed (run H outside w moves).store := wellFormed_run w moves
  exact ⟨hwf.shares.total_eq, hwf.shares.nonneg, hwf.queue.reserved_eq, hwf.queue.pos,
    hwf.limits.fees_nonneg⟩

end Stow.Adapter
