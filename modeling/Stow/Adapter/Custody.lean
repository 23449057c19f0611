import Mathlib.Algebra.BigOperators.Finprod
import Stow.Adapter.Published

/-! Whose word it takes to change the shares and the withdrawals of an owner along every run, and
what the log tells of the supply. -/
namespace Stow.Adapter

open Stow.Lib Stow.Lib.Contract Stow.Lib.Call SortedMap

variable {W E : Type} {H : Host W} {ctx : Ctx} {s t : Sys W} {op : Op} {owner : Address}

/-- The position of the owner and their requests are as they were. -/
def Store.Leaves (a b : Store) (owner : Address) : Prop :=
  b.positions.get owner = a.positions.get owner ∧ a.withdrawRequests.Forall (fun id r =>
    r.owner = owner → b.withdrawRequests.get id = some r)

theorem requests_other {requests : SortedMap Nat WithdrawRequest} {k : Nat}
    (h : ∀ r, requests.get k = some r → r.owner ≠ owner) (r' : WithdrawRequest) :
    requests.Forall (fun id r => r.owner = owner → (requests.set k r').get id = some r) := by
  intro id r hg ho
  refine (get_set_of_ne ?_).trans hg
  rintro rfl
  exact h r hg ho

theorem mintAll_other {now : Nat} {items : List (Address × Int)}
    {positions : SortedMap Address Position} (h : ∀ i ∈ items, owner ≠ i.1) :
    (mintAll now items positions).get owner = positions.get owner := by
  induction items generalizing positions with
  | nil => rfl
  | cons i rest ih =>
    obtain ⟨hi, hr⟩ := List.forall_mem_cons.mp h
    exact (ih hr).trans (get_set_of_ne hi)

/-- A call that does not rewrite one position, and mints no batch, writes none. -/
theorem exec_positions (hop : op.repositions = false)
    (hn : op.publishes (.deposited 0 0 0 0 0) = false) (h : exec H ctx op s = .ok ((), t)) :
    t.store.positions.get owner = s.store.positions.get owner := by
  refine exec_preserves
    (P := fun v => v.store.positions.get owner = s.store.positions.get owner) hop
    (fun hq hv => hq.1 ▸ hv) (fun f hf => preserves_save fun v hv => (hf v.store).2.symm ▸ hv)
    (fun _ _ _ => preserves_publish fun _ hv => hv) (fun _ _ hm => ?_) s () t rfl h
  exact absurd ((hm 0 0 0 0 0).symm.trans hn) Bool.false_ne_true.symm

theorem exec_leaves (hwf : WellFormed s.store) (ho : owner ∉ ctx.auths)
    (h : exec H ctx op s = .ok ((), t)) : s.store.Leaves t.store owner := by
  have hne {a : Address} (ha : a ∈ ctx.auths) : owner ≠ a := fun he => ho (he ▸ ha)
  -- the request that a call of `a` resolves is theirs
  have hrq {a : Address} {id : Nat} {r : WithdrawRequest} (ha : a ∈ ctx.auths)
      (hg : s.store.withdrawRequests.get id = some r) (hr : r.owner = a) :
      ∀ q, s.store.withdrawRequests.get r.id = some q → q.owner ≠ owner := by
    intro q hq
    obtain rfl := Option.some.inj (hq.symm.trans ((hwf.queue.id_eq id r hg).1 ▸ hg))
    exact hr ▸ (hne ha).symm
  have hf := exec_frame h
  cases op with
  | deposit source amount =>
    obtain ⟨_, h⟩ := of_void h
    obtain ⟨⟨ha, -⟩, -, -, -, -, -, _, _, _, _, _, -, -, -, -, -, rfl⟩ := deposit_ok.mp h
    exact ⟨get_set_of_ne (hne ha), fun _ _ hg _ => hg⟩
  | batchDeposit sources amounts =>
    obtain ⟨_, h⟩ := of_void h
    obtain ⟨-, -, -, -, ha, -⟩ := batchDeposit_ok.mp h
    refine ⟨?_, fun _ _ hg _ => hf.queue rfl ▸ hg⟩
    rw [(batchDeposit_writes h).2.2]
    refine mintAll_other fun i hi => ?_
    obtain ⟨x, hx, rfl⟩ := List.mem_map.mp hi
    exact hne (ha x.1 (List.of_mem_zip hx).1).1
  | requestWithdraw a shares =>
    obtain ⟨_, h⟩ := of_void h
    obtain ⟨⟨ha, -⟩, -, -, -, -, rfl, _, _, _, -, -, -, -, -, -, -, rfl⟩ := requestWithdraw_ok.mp h
    refine ⟨get_set_of_ne (hne ha), requests_other (fun r hg => ?_) _⟩
    exact absurd (hwf.queue.id_eq _ r hg).2 (Nat.not_succ_le_self _)
  | claimWithdraw a requestId =>
    refine ⟨exec_positions rfl rfl h, ?_⟩
    obtain ⟨_, h⟩ := of_void h
    obtain ⟨-, r, _, _, hg, hr, -, -, -, hst, -⟩ := claimWithdraw_ok h
    simp only [claimWithdraw, entry_rules] at h
    rw [hst]
    exact requests_other (hrq h.1.1 hg hr) _
  | cancelWithdraw a requestId =>
    obtain ⟨⟨ha, -⟩, r, _, _, hg, hr, -, -, -, -, -, -, rfl⟩ := cancelWithdraw_ok.mp h
    exact ⟨get_set_of_ne (hne ha), requests_other (hrq ha hg hr) _⟩
  | _ => exact ⟨exec_positions rfl rfl h, fun _ _ hg _ => hf.queue rfl ▸ hg⟩

/-- In every run, whatever the token and the strategies do, a call that an owner has not signed
leaves their position and their withdrawal requests exactly as they were. -/
theorem shares_guarded (H : Host W) (outside : E → W → W) (w : W) (moves : List (Move E)) :
    AllSteps (step H outside) (fun s m => ∀ ctx op owner, m = .call ctx op → owner ∉ ctx.auths →
      s.store.Leaves (step H outside s m).store owner) ⟨.deployed, [], w⟩ moves := by
  refine invariant_allSteps (I := fun s : Sys W => WellFormed s.store)
    (fun s m hs _ => wellFormed_step hs m) ?_ deployed_wellFormed (.trivial moves)
  rintro s _ hs - ctx op owner rfl ho
  rcases after_cases (exec H ctx op) s with ⟨_, t, hok, ht⟩ | ⟨-, ht⟩
  · simpa only [step, ht] using exec_leaves hs ho hok
  · simp only [step, ht]
    exact ⟨rfl, fun _ _ hg _ => hg⟩

/-- In every run, whatever the token and the strategies do, the log alone tells the shares of
everyone, and the supply is their sum. -/
theorem log_tells_supply (H : Host W) (outside : E → W → W) (w : W) (moves : List (Move E)) :
    let s := run H outside w moves
    (∀ i, s.store.sharesOf i = sharesTold s.log i) ∧
      s.store.totalShares = ∑ᶠ i, sharesTold s.log i := by
  intro s
  have ht : Tallied s := run_tallied w moves
  have hm : s.store.positions.Forall (fun i _ => i ∈ s.store.positions.entries.map Prod.fst) :=
    fun i p hg => List.mem_map_of_mem (get_eq_some_iff.mp hg)
  have hk : (s.store.positions.entries.map Prod.fst).Nodup :=
    List.pairwise_map.mpr (s.store.positions.sorted.imp ne_of_lt)
  refine ⟨ht, ?_⟩
  rw [(wellFormed_run w moves).shares.total_eq, sum_eq_sum_keys hk hm,
    finsum_eq_sum_of_support_subset (s := (s.store.positions.entries.map Prod.fst).toFinset) _ ?_,
    List.sum_toFinset _ hk]
  · exact congrArg List.sum (List.map_congr_left fun i _ => ht i)
  · -- nothing is told of somebody without a position
    intro i hi
    rw [Function.mem_support, ← ht i, Store.sharesOf] at hi
    cases hg : s.store.positions.get i with
    | none => simp [hg] at hi
    | some p => simpa using hm i p hg

end Stow.Adapter
