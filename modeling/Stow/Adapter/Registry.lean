import Stow.Adapter.Frame

/-! The strategy registry over whole runs: ids, live addresses and the active strategy. -/
namespace Stow.Adapter

open Stow.Lib Stow.Lib.Contract Option SortedMap

namespace Registry

/-- What one successful call can do to the registry. -/
inductive Next (now : Nat) (r : Registry) : Registry → Prop
  | same : Next now r r
  | registered (info : StrategyInfo) (hid : info.id = r.next + 1)
      (hlive : info.deregisteredAt = none)
      (hfresh : ∀ id i, 1 ≤ id → id ≤ r.next → r.strategies.get id = some i →
        i.deregisteredAt = none → i.address ≠ info.address) :
      Next now r { r with next := info.id, strategies := r.strategies.set info.id info }
  | deregistered (id : Nat) (info : StrategyInfo) (hget : r.strategies.get id = some info)
      (hlive : info.deregisteredAt = none) (hactive : r.active ≠ some id) :
      Next now r { r with
        strategies := r.strategies.set info.id { info with deregisteredAt := some now } }
  | capped (id : Nat) (info : StrategyInfo) (cap : Int) (hget : r.strategies.get id = some info) :
      Next now r { r with strategies := r.strategies.set info.id { info with depositCap := cap } }
  | activated (id : Nat) (info : StrategyInfo) (hget : r.strategies.get id = some info)
      (hlive : info.deregisteredAt = none) : Next now r { r with active := some id }
  | cleared : Next now r { r with active := none }

/-- Ids count up from `1`, live addresses differ, and the active strategy is live. -/
structure Safe (r : Registry) : Prop where
  ids : ∀ id, (∃ info, r.strategies.get id = some info) ↔ 1 ≤ id ∧ id ≤ r.next
  keyed : ∀ id info, r.strategies.get id = some info → info.id = id
  distinct : ∀ i j a b, r.strategies.get i = some a → r.strategies.get j = some b →
    a.deregisteredAt = none → b.deregisteredAt = none → a.address = b.address → i = j
  active_live : ∀ id, r.active = some id →
    ∃ info, r.strategies.get id = some info ∧ info.deregisteredAt = none

variable {r r' : Registry} {now id : Nat} {info : StrategyInfo}

/-- Rewriting a record under its own id, without reviving it or moving it to another address. -/
theorem Safe.rewrite (h : r.Safe) (info' : StrategyInfo) (hg : r.strategies.get id = some info)
    (hid : info'.id = info.id) (had : info'.address = info.address)
    (hlv : info'.deregisteredAt = none → info.deregisteredAt = none)
    (hac : r.active = some id → info'.deregisteredAt = none) :
    Safe { r with strategies := r.strategies.set info'.id info' } := by
  have hky : info'.id = id := hid.trans (h.keyed id info hg)
  rw [hky]
  -- Every record of the new registry stands for an old one that is live if it is.
  have hold : ∀ j b, (r.strategies.set id info').get j = some b →
      ∃ c, r.strategies.get j = some c ∧ c.address = b.address ∧
        (b.deregisteredAt = none → c.deregisteredAt = none) := by
    intro j b hb
    rcases get_set_cases hb with ⟨rfl, rfl⟩ | ⟨-, hb⟩
    · exact ⟨info, hg, had.symm, hlv⟩
    · exact ⟨b, hb, rfl, fun hl => hl⟩
  refine ⟨fun j => ?_, Forall.set h.keyed hky, fun i j a b ha hb hla hlb hab => ?_, fun j hj => ?_⟩
  · rw [← h.ids j, get_set]
    split_ifs with hj
    · exact ⟨fun _ => ⟨info, hj ▸ hg⟩, fun _ => ⟨info', rfl⟩⟩
    · exact Iff.rfl
  · obtain ⟨a', ha', haa, hal⟩ := hold i a ha
    obtain ⟨b', hb', hbb, hbl⟩ := hold j b hb
    exact h.distinct i j a' b' ha' hb' (hal hla) (hbl hlb) (haa.trans (hab.trans hbb.symm))
  · rw [get_set]
    split_ifs with hk
    · exact ⟨info', rfl, hac (hk ▸ hj)⟩
    · exact h.active_live j hj

theorem Safe.register (h : r.Safe) (hid : info.id = r.next + 1)
    (hf : ∀ id i, 1 ≤ id → id ≤ r.next → r.strategies.get id = some i →
      i.deregisteredAt = none → i.address ≠ info.address) :
    Safe { r with next := info.id, strategies := r.strategies.set info.id info } := by
  have hbn : ∀ j b, r.strategies.get j = some b → 1 ≤ j ∧ j ≤ r.next :=
    fun j b hb => (h.ids j).mp ⟨b, hb⟩
  have ho : ∀ j b, r.strategies.get j = some b → b.deregisteredAt = none →
      b.address ≠ info.address :=
    fun j b hb hl => hf j b (hbn j b hb).1 (hbn j b hb).2 hb hl
  refine ⟨fun j => ?_, Forall.set h.keyed rfl, fun i j a b ha hb hla hlb hab => ?_, fun j hj => ?_⟩
  · show (∃ b, (r.strategies.set info.id info).get j = some b) ↔ 1 ≤ j ∧ j ≤ info.id
    rw [get_set]
    split_ifs with hj
    · exact ⟨fun _ => by omega, fun _ => ⟨info, rfl⟩⟩
    · rw [h.ids j]
      omega
  · rcases get_set_cases ha with ⟨rfl, rfl⟩ | ⟨-, ha⟩ <;>
      rcases get_set_cases hb with ⟨rfl, rfl⟩ | ⟨-, hb⟩
    · rfl
    · exact absurd hab.symm (ho j b hb hlb)
    · exact absurd hab (ho i a ha hla)
    · exact h.distinct i j a b ha hb hla hlb hab
  · obtain ⟨b, hb, hl⟩ := h.active_live j hj
    have hle := (hbn j b hb).2
    exact ⟨b, (get_set_of_ne (by omega)).trans hb, hl⟩

theorem Safe.next (h : r.Safe) (hn : Next now r r') : r'.Safe := by
  cases hn with
  | same => exact h
  | registered info hid hlv hf => exact h.register hid hf
  | deregistered id info hg hlv hac =>
    exact h.rewrite { info with deregisteredAt := some now } hg rfl rfl nofun
      (fun ha => absurd ha hac)
  | capped id info cap hg =>
    refine h.rewrite { info with depositCap := cap } hg rfl rfl (fun hl => hl) ?_
    intro ha
    obtain ⟨i, hi, hl⟩ := h.active_live id ha
    rw [hg] at hi
    exact some.inj hi ▸ hl
  | activated id info hg hlv =>
    refine { h with active_live := fun j hj => ?_ }
    obtain rfl := some.inj hj
    exact ⟨info, hg, hlv⟩
  | cleared => exact { h with active_live := nofun }

/-- The strategy was deregistered at that time. -/
def RetiredAt (r : Registry) (id time : Nat) : Prop :=
  ∃ info, r.strategies.get id = some info ∧ info.deregisteredAt = some time

/-- A deregistration is final. -/
theorem RetiredAt.next {time : Nat} (h : r.Safe) (hr : r.RetiredAt id time) (hn : Next now r r') :
    r'.RetiredAt id time := by
  obtain ⟨info, hg, ht⟩ := hr
  cases hn with
  | same | activated | cleared => exact ⟨info, hg, ht⟩
  | registered info' hid hl hf =>
    have hle := ((h.ids id).mp ⟨info, hg⟩).2
    exact ⟨info, (get_set_of_ne (by omega)).trans hg, ht⟩
  | deregistered j info' hj hl ha =>
    refine ⟨info, (get_set_of_ne ?_).trans hg, ht⟩
    rintro rfl
    rw [h.keyed j info' hj, hj] at hg
    simp [← some.inj hg, hl] at ht
  | capped j info' cap hj =>
    show ∃ i, (r.strategies.set info'.id { info' with depositCap := cap }).get id = some i ∧ _
    rw [get_set]
    split_ifs with hk
    · rw [hk, h.keyed j info' hj, hj] at hg
      exact ⟨_, rfl, some.inj hg ▸ ht⟩
    · exact ⟨info, hg, ht⟩

theorem RetiredAt.not_active {time : Nat} (h : r.Safe) (hr : r.RetiredAt id time) :
    r.active ≠ some id := by
  intro ha
  obtain ⟨info, hg, ht⟩ := hr
  obtain ⟨info', hg', hl⟩ := h.active_live id ha
  rw [hg] at hg'
  simp [← some.inj hg', ht] at hl

end Registry

/-- The scan for duplicates reads every id given out so far. -/
theorem Store.duplicate_false {st : Store} {address : Address} (h : st.duplicate address = false)
    {id : Nat} {info : StrategyInfo} (hp : 1 ≤ id) (hle : id ≤ st.nextStrategyId)
    (hg : st.strategies.get id = some info) (hl : info.deregisteredAt = none) :
    info.address ≠ address := by
  have hm : info ∈ st.listStrategies := by
    refine List.mem_filterMap.mpr ⟨id, ?_, hg⟩
    rw [List.mem_range'_1]
    omega
  have hno := List.any_eq_false.mp h info hm
  simpa [hl] using hno

section

variable {W E : Type} {H : Host W} {outside : E → W → W} {ctx : Ctx} {s t : Sys W}

/-- Before the first call there is no strategy, so seeding the counter again changes nothing. -/
theorem registry_seeded {st : Store} (hs : st.registry.Safe) (hwf : WellFormed st)
    (ha : st.admin = none) (admin treasury token : Address) :
    (st.seeded admin treasury token).registry = st.registry := by
  obtain ⟨-, -, -, -, he⟩ := hwf.setup.resolve_left (fun hn => hn.1 ha)
  have hnx : st.nextStrategyId = 0 := by
    by_contra hne
    obtain ⟨info, hg⟩ := (hs.ids 1).mpr ⟨le_rfl, Nat.one_le_iff_ne_zero.mpr hne⟩
    have hg : st.strategies.get 1 = some info := hg
    simp [he] at hg
  simp [Store.registry, Store.seeded, hnx]

theorem exec_registry {op : Op} (hwf : WellFormed s.store) (hs : s.store.registry.Safe)
    (h : exec H ctx op s = .ok ((), t)) :
    Registry.Next ctx.now s.store.registry t.store.registry := by
  have hf := exec_frame h
  cases op with
  | initializeAdapter admin treasury token =>
    obtain ⟨ha, hst, -⟩ := initializeAdapter_ok h
    rw [hst, registry_seeded hs hwf ha]
    exact .same
  | registerStrategy caller address name =>
    obtain ⟨id, h⟩ := of_void h
    obtain ⟨-, hd, rfl, hst, -⟩ := registerStrategy_ok h
    rw [hst]
    exact .registered ⟨_, address, name, 0, ctx.now, none⟩ rfl rfl
      (fun _ _ hp hle hg hl => Store.duplicate_false hd hp hle hg hl)
  | deregisterStrategy caller strategyId =>
    simp only [exec, deregisterStrategy, getStrategy, entry_rules] at h
    obtain ⟨-, -, -, hac, info, hg, hl, rfl⟩ := h
    exact .deregistered strategyId info hg hl hac
  | setActiveStrategy caller strategyId =>
    simp only [exec, setActiveStrategy, getStrategy, entry_rules] at h
    obtain ⟨-, -, -, -, info, hg, hl, rfl⟩ := h
    exact .activated strategyId info hg hl
  | migrateStrategy caller newStrategyId =>
    obtain ⟨_, _, newInfo, _, _, _, _, -, -, -, hn, hl, -, -, hst, -⟩ := migrateStrategy_ok h
    rw [hst]
    exact .activated newStrategyId newInfo hn hl
  | setStrategyDepositCap caller strategyId cap =>
    simp only [exec, setStrategyDepositCap, getStrategy, entry_rules] at h
    obtain ⟨-, -, -, -, info, hg, rfl⟩ := h
    exact .capped strategyId info cap hg
  | emergencyWithdrawAll caller =>
    obtain ⟨recovered, h⟩ := of_void h
    obtain ⟨_, _, _, _, -, -, -, hst, -⟩ := emergencyWithdrawAll_ok h
    rw [hst]
    exact .cleared
  | _ =>
    rw [hf.registry rfl]
    exact .same

/-- The storage is well formed and its registry is safe. -/
def RegistryKept (s : Sys W) : Prop := WellFormed s.store ∧ s.store.registry.Safe

theorem deployed_registry : Store.deployed.registry.Safe where
  ids id := by simp [Store.registry, Store.deployed]; omega
  keyed := by simp [Store.registry, Store.deployed]
  distinct := by simp [Store.registry, Store.deployed]
  active_live := nofun

theorem registryKept_step (hk : RegistryKept s) (m : Move E) : RegistryKept (step H outside s m) :=
  step_induction (I := RegistryKept) hk
    (fun _ _ _ h => ⟨exec_wellFormed hk.1 h, hk.2.next (exec_registry hk.1 hk.2 h)⟩)
    (fun _ => hk) m

theorem registryKept_run (w : W) (moves : List (Move E)) : RegistryKept (run H outside w moves) :=
  invariant_reachable (I := RegistryKept) (fun _ m hk => registryKept_step hk m)
    ⟨deployed_wellFormed, deployed_registry⟩ moves

/-- Once deregistered, a strategy stays so at the same time through any run. -/
theorem retiredAt_run {id time : Nat} (hk : RegistryKept s)
    (hr : s.store.registry.RetiredAt id time) (moves : List (Move E)) :
    (runFrom (step H outside) s moves).store.registry.RetiredAt id time := by
  refine (invariant_reachable
    (I := fun s => RegistryKept s ∧ s.store.registry.RetiredAt id time) ?_ ⟨hk, hr⟩ moves).2
  intro s m ⟨hk, hr⟩
  refine ⟨registryKept_step hk m, ?_⟩
  exact step_induction (I := fun s => s.store.registry.RetiredAt id time) hr
    (fun _ _ _ h => hr.next hk.2 (exec_registry hk.1 hk.2 h)) (fun _ => hr) m

end

/-- In every reachable state the active strategy is registered and live, live strategies have
different addresses, the ids are `1` up to the counter, and a deregistration is final: through any
continuation its time stays and the strategy is not active. -/
theorem strategy_registry {W E : Type} (H : Host W) (outside : E → W → W) (w : W)
    (moves later : List (Move E)) :
    let st := (run H outside w moves).store
    let st' := (run H outside w (moves ++ later)).store
    (∀ id, st.activeStrategy = some id →
      ∃ info, st.strategies.get id = some info ∧ info.deregisteredAt = none) ∧
    (∀ i j a b, st.strategies.get i = some a → st.strategies.get j = some b →
      a.deregisteredAt = none → b.deregisteredAt = none → a.address = b.address → i = j) ∧
    (∀ id, (∃ info, st.strategies.get id = some info) ↔ 1 ≤ id ∧ id ≤ st.nextStrategyId) ∧
    (∀ id info time, st.strategies.get id = some info → info.deregisteredAt = some time →
      (∃ info', st'.strategies.get id = some info' ∧ info'.deregisteredAt = some time) ∧
        st'.activeStrategy ≠ some id) := by
  have hk : RegistryKept (run H outside w moves) := registryKept_run w moves
  have hk' : RegistryKept (run H outside w (moves ++ later)) := registryKept_run w _
  refine ⟨hk.2.active_live, hk.2.distinct, hk.2.ids, fun id info time hg ht => ?_⟩
  have hr : (run H outside w (moves ++ later)).store.registry.RetiredAt id time := by
    rw [run, runFrom_append]
    exact retiredAt_run hk ⟨info, hg, ht⟩ later
  exact ⟨hr, hr.not_active hk'.2⟩

end Stow.Adapter
